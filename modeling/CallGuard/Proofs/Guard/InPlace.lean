import CallGuard.Proofs.Files.Beside
import CallGuard.Proofs.Guard.Instrument
import CallGuard.Proofs.Ir.Name

/-!
Guarding the module in a file leaves one of two texts. A run that fails before it writes leaves
the text that it started from, and one that comes to the end, or as far as to the assembler,
leaves the guarded text.

* `RunStep`, `GuardConfig.runInSteps`, `run_eq_runInSteps`: a run whose errors tell the step that
  failed.
* `GuardConfig.filesBefore`: the files that a run reads, with the text that the disassembler
  makes where there is none.
* `GuardConfig.Guards`: the guard of the text in files, and what it makes of this text.
* `GuardConfig.run_in_place`: which text a run leaves.
* `GuardConfig.run_of_write`: a run on a text that is there, as far as to the assembler.
-/

namespace CallGuard

open Files (WroteAtMost)
open Wat

/-! ### The steps of a run -/

/-- The steps of a run on files. -/
inductive RunStep where
  | findBinary
  | disassemble
  | loadReport
  | parseReport
  | loadText
  | build
  | instrument
  | write
  | assemble
  deriving DecidableEq, Repr

/-- Steps of a run whose errors tell the step that failed. -/
abbrev RunningSteps := EStateM (RunStep × GuardError) Files

section Steps

variable {α β : Type}

/-- What is done as a step. -/
def atStep (step : RunStep) (p : Running α) : RunningSteps α :=
  EStateM.adaptExcept (step, ·) p

/-- What is done, whichever step it is. -/
def withoutStep (p : RunningSteps α) : Running α :=
  EStateM.adaptExcept Prod.snd p

lemma withoutStep_atStep (step : RunStep) (p : Running α) : withoutStep (atStep step p) = p := by
  funext files
  simp only [withoutStep, atStep, EStateM.adaptExcept]
  cases p files <;> rfl

lemma withoutStep_bind (p : RunningSteps α) (f : α → RunningSteps β) :
    withoutStep (p >>= f) = withoutStep p >>= fun a => withoutStep (f a) := by
  funext files
  change EStateM.adaptExcept Prod.snd (EStateM.bind p f) files =
    EStateM.bind (EStateM.adaptExcept Prod.snd p) _ files
  simp only [EStateM.adaptExcept, EStateM.bind]
  cases p files <;> rfl

lemma withoutStep_pure (a : α) : withoutStep (pure a) = pure a := rfl

lemma withoutStep_get : withoutStep get = get := rfl

lemma withoutStep_ite (P : Prop) [Decidable P] (p q : RunningSteps α) :
    withoutStep (if P then p else q) = if P then withoutStep p else withoutStep q := by
  split <;> rfl

/-- What comes of a step and of what follows, from what comes of the step. -/
lemma of_bind_atStep {step : RunStep} {p : Running α} {f : α → RunningSteps β} {files : Files}
    {Q : EStateM.Result (RunStep × GuardError) Files β → Prop}
    (herror : ∀ e after, p files = .error e after → Q (.error (step, e) after))
    (hok : ∀ a after, p files = .ok a after → Q (f a after)) :
    Q ((atStep step p >>= f) files) := by
  change Q (EStateM.bind (atStep step p) f files)
  rw [EStateM.bind, atStep, EStateM.adaptExcept]
  cases hp : p files with
  | error e after => exact herror e after hp
  | ok a after => exact hok a after hp

lemma get_bind (f : Files → Running α) (files : Files) : (get >>= f) files = f files files := rfl

lemma bind_of_ok {p : Running α} {files after : Files} {a : α} (h : p files = .ok a after)
    (f : α → Running β) : (p >>= f) files = f a after := by
  change EStateM.bind p f files = _
  rw [EStateM.bind, h]

end Steps

namespace GuardConfig

/-- The steps of a run once there is a text. -/
def guardInSteps (config : GuardConfig) (programs : Programs) (wasmPath : String) :
    RunningSteps GuardOutcome := do
  let written ← atStep .loadReport (readText config.reportPath)
  let report ← atStep .parseReport (compute ((Report.parse written).mapError .report))
  let text ← atStep .loadText (readText config.watPath)
  let g ← atStep .build (compute (config.guardOf report text))
  let out ← atStep .instrument (compute (g.instrument text))
  atStep .write (writeText config.watPath out.text)
  if config.assemble then
    atStep .assemble (config.runTool programs "wat2wasm" config.watPath wasmPath)
  return ⟨g.sets, g.layout, out.refreshed, out.checked,
    if config.assemble then some wasmPath else none⟩

/-- A run whose errors tell the step that failed. -/
def runInSteps (config : GuardConfig) (programs : Programs) : RunningSteps GuardOutcome := do
  let wasmPath ← atStep .findBinary (compute config.wasmPath)
  unless (← get).contains config.watPath do
    atStep .disassemble (config.runTool programs "wasm2wat" wasmPath config.watPath)
  config.guardInSteps programs wasmPath

variable {config : GuardConfig} {programs : Programs} {files : Files}

lemma run_eq_runInSteps (config : GuardConfig) (programs : Programs) :
    config.run programs = withoutStep (config.runInSteps programs) := by
  simp only [run, runInSteps, guardInSteps, withoutStep_bind, withoutStep_atStep, withoutStep_ite,
    withoutStep_pure, withoutStep_get]

/-! ### What single steps leave -/

section Single

variable {α β : Type} {after : Files}

lemma compute_bind (a : α) (f : α → Running β) (files : Files) :
    (compute (.ok a) >>= f) files = f a files := rfl

lemma of_bind_compute {step : RunStep} {result : Except GuardError α} {f : α → RunningSteps β}
    {Q : EStateM.Result (RunStep × GuardError) Files β → Prop}
    (herror : ∀ e, Q (.error (step, e) files)) (hok : ∀ a, result = .ok a → Q (f a files)) :
    Q ((atStep step (compute result) >>= f) files) := by
  cases result with
  | error e => exact herror e
  | ok a => exact hok a rfl

lemma of_bind_readText {step : RunStep} {path : String} {f : List Char → RunningSteps β}
    {Q : EStateM.Result (RunStep × GuardError) Files β → Prop}
    (herror : ∀ e, Q (.error (step, e) files))
    (hok : ∀ text, files.readText path = .ok text → Q (f text files)) :
    Q ((atStep step (readText path) >>= f) files) := by
  have hread : readText path files = compute ((files.readText path).mapError .io) files := by
    rw [readText, get_bind]
    cases files.readText path <;> rfl
  refine of_bind_atStep (fun e after h => ?_) fun text after h => ?_ <;> rw [hread] at h <;>
    cases hfile : files.readText path <;> rw [hfile] at h <;> cases h
  · exact herror _
  · exact hok text hfile

lemma writeText_eq_ok {path : String} {text : List Char} {u : Unit}
    (h : writeText path text files = .ok u after) :
    files.write path (Text.encode text) = .ok after := by
  rw [writeText, get_bind] at h
  cases hwrite : files.write path (Text.encode text) <;> rw [hwrite] at h <;> cases h
  rfl

/-- A tool leaves what its program leaves, whether it fails or not. -/
lemma files_runTool (config : GuardConfig) (programs : Programs) (tool input output : String)
    (files : Files) :
    (∀ e left, config.runTool programs tool input output files = .error e left →
      left = (programs (Path.join config.toolDirectory tool) [input, "-o", output] files).2) ∧
    ∀ u left, config.runTool programs tool input output files = .ok u left →
      left = (programs (Path.join config.toolDirectory tool) [input, "-o", output] files).2 := by
  rw [runTool, get_bind]
  generalize programs (Path.join config.toolDirectory tool) [input, "-o", output] files = outcome
  obtain ⟨result, after⟩ := outcome
  constructor
  · intro e left h
    obtain error | ⟨(_ | n) | n, complaint⟩ := result <;> cases h <;> rfl
  · intro u left h
    obtain error | ⟨(_ | n) | n, complaint⟩ := result <;> cases h
    rfl

end Single

/-! ### The file of the binary form -/

/-- The name of the binary form is a name. -/
lemma isName_append_wasm {stem : String} (h : '/' ∉ stem.toList) :
    Path.IsName (stem ++ ".wasm") := by
  have hchars : (stem ++ ".wasm").toList = stem.toList ++ ['.', 'w', 'a', 's', 'm'] :=
    String.toList_append
  have hlength : 5 ≤ (stem ++ ".wasm").toList.length := by
    rw [hchars, List.length_append]
    exact Nat.le_add_left 5 _
  refine ⟨?_, ?_, ?_⟩
  · rw [hchars, List.mem_append, not_or]
    exact ⟨h, by decide⟩
  · rintro (hempty | hpoint)
    · rw [hempty] at hlength
      exact absurd hlength (by decide)
    · rw [hpoint] at hlength
      exact absurd hlength (by decide)
  · intro hup
    rw [hup] at hlength
    exact absurd hlength (by decide)

/-- The binary form lies beside the text. -/
lemma beside_wasmPath {wasmPath : String} (h : config.wasmPath = .ok wasmPath) :
    ∃ name binary, Path.IsName name ∧ Path.IsName binary ∧
      Path.Beside config.watPath wasmPath name binary := by
  rw [GuardConfig.wasmPath] at h
  cases hname : Path.fileName? config.watPath with
  | none =>
      rw [hname] at h
      cases h
  | some name =>
      rw [hname] at h
      obtain rfl := Except.ok.inj h
      have hisName := Path.isName_of_fileName? hname
      have hbinary : Path.IsName (String.ofList (name.toList.takeWhile (· != '.')) ++ ".wasm") :=
        isName_append_wasm fun hmem => hisName.slash (by
          rw [String.toList_ofList] at hmem
          exact (List.takeWhile_prefix _).subset hmem)
      exact ⟨name, _, hisName, hbinary, Path.beside_join_parent hname hbinary⟩

/-- What writes at the path of the binary form at most does not change the text, if this has
another name. -/
lemma read_of_wroteAtMost {wasmPath : String} {after : Files} {key : List String} {file : File}
    (h : config.wasmPath = .ok wasmPath)
    (hother : Path.fileName? config.watPath ≠ Path.fileName? wasmPath)
    (hlocate : files.locate config.watPath = .ok (.found (.file key file)))
    (hdir : Files.asksDirectory config.watPath = false)
    (hwrote : files.WroteAtMost wasmPath after) :
    after.read config.watPath = .ok file.bytes := by
  obtain ⟨name, binary, hname, hbinary, hbeside⟩ := beside_wasmPath h
  have hne : name ≠ binary := by
    rintro rfl
    exact hother (hbeside.fileName.trans hbeside.otherName.symm)
  refine hwrote.read hlocate hdir fun place hplace => ?_
  have hkey := Files.arrives_of_follow (Files.follow_of_locate hlocate) (.inr ⟨file, rfl⟩)
  obtain ⟨up, rfl, rfl⟩ := Files.arrives_beside hbeside hname hbinary hkey hplace
  refine ⟨by simp, fun heq => hne ?_⟩
  simpa using heq

/-! ### What a run leaves -/

/-- Running a program with an input and an output writes at the path of the output at most. -/
def WritesOutput (programs : Programs) (path : String) : Prop :=
  ∀ input output files, WroteAtMost files output (programs path [input, "-o", output] files).2

/-- The files that a run reads: those that it starts from, or, where there is no text, those that
the disassembler leaves. -/
def filesBefore (config : GuardConfig) (programs : Programs) (files : Files) : Files :=
  match config.wasmPath with
  | .error _ => files
  | .ok wasmPath =>
    if files.contains config.watPath then files
    else (programs (Path.join config.toolDirectory "wasm2wat")
      [wasmPath, "-o", config.watPath] files).2

/-- The guard of the text in files under the report there, and what it makes of this text. -/
def Guards (config : GuardConfig) (files : Files) (g : Guard) (out : Instrumented) : Prop :=
  ∃ written report text, files.readText config.reportPath = .ok written ∧
    Report.parse written = .ok report ∧ files.readText config.watPath = .ok text ∧
    config.guardOf report text = .ok g ∧ g.instrument text = .ok out

/-- The binary form is not made, or has another name than the text. -/
def BinaryApart (config : GuardConfig) : Prop :=
  config.assemble = true → ∀ wasmPath, config.wasmPath = .ok wasmPath →
    Path.fileName? config.watPath ≠ Path.fileName? wasmPath

/-- What a run ends with. An error before the text is written leaves the files that were read.
Where all went well, or only the assembler failed, the text is the guarded one, unless the binary
form was put in its place. -/
def EndsWith (config : GuardConfig) (programs : Programs) (files : Files) :
    EStateM.Result (RunStep × GuardError) Files GuardOutcome → Prop
  | .ok outcome after => ∃ g out, config.Guards (config.filesBefore programs files) g out ∧
      (config.BinaryApart → after.read config.watPath = .ok (Text.encode out.text)) ∧
      outcome.sets = g.sets ∧ outcome.layout = g.layout ∧ outcome.refreshed = out.refreshed ∧
      outcome.checked = out.checked
  | .error (step, _) after =>
      (step ≠ .write ∧ step ≠ .assemble → after = config.filesBefore programs files) ∧
      (step = .assemble → ∃ g out, config.Guards (config.filesBefore programs files) g out ∧
        (config.BinaryApart → after.read config.watPath = .ok (Text.encode out.text)))

/-- An empty text has no table. -/
lemma guardOf_nil (config : GuardConfig) (report : Report) :
    config.guardOf report [] = .error .missingElem := by
  have htable : Guard.tableOf [] = .error .missingElem := by
    simp [Guard.tableOf, Wat.Module.parse?, Wat.tokens, Wat.pieces, Wat.tokensFrom, Wat.forms?,
      Wat.formsFrom, Wat.Module.elemSegment?, Wat.Module.fieldsNamed]
  rw [guardOf, Guard.ofText, htable]
  rfl

lemma endsWith_error {step : RunStep} {e : GuardError} {after : Files} (hstep : step ≠ .assemble)
    (hafter : after = config.filesBefore programs files) :
    config.EndsWith programs files (.error (step, e) after) :=
  ⟨fun _ => hafter, fun h => absurd h hstep⟩

/-- The text that a run has written is in a file. -/
lemma exists_file_of_write {before after : Files} {g : Guard} {out : Instrumented}
    (hguards : config.Guards before g out)
    (hwrite : before.write config.watPath (Text.encode out.text) = .ok after) :
    ∃ key file, after.locate config.watPath = .ok (.found (.file key file)) ∧
      Files.asksDirectory config.watPath = false ∧ file.bytes = Text.encode out.text := by
  obtain ⟨written, report, text, -, -, htext, hguard, -⟩ := hguards
  have hne : text ≠ [] := by
    rintro rfl
    rw [guardOf_nil] at hguard
    cases hguard
  obtain ⟨key, file, hlocate, hdir⟩ := Files.exists_file_of_readText htext hne
  rw [Files.write_of_locate _ hlocate hdir] at hwrite
  obtain rfl := Except.ok.inj hwrite
  have hleads := Files.locate_put hlocate { file with bytes := Text.encode out.text } le_rfl
  rw [if_pos rfl] at hleads
  exact ⟨key, _, hleads, hdir, rfl⟩

/-- Once there is a text, it is kept or guarded. -/
lemma guardInSteps_endsWith {wasmPath : String} (hwasm : config.wasmPath = .ok wasmPath)
    (htool : WritesOutput programs (Path.join config.toolDirectory "wat2wasm")) :
    config.EndsWith programs files
      (config.guardInSteps programs wasmPath (config.filesBefore programs files)) := by
  generalize hbefore : config.filesBefore programs files = before
  have hkept {step : RunStep} (hstep : step ≠ .assemble) (e : GuardError) :
      config.EndsWith programs files (.error (step, e) before) :=
    endsWith_error hstep hbefore.symm
  rw [guardInSteps]
  refine of_bind_readText (hkept (by decide)) fun written hwritten => ?_
  refine of_bind_compute (hkept (by decide)) fun report hreport => ?_
  refine of_bind_readText (hkept (by decide)) fun text htext => ?_
  refine of_bind_compute (hkept (by decide)) fun g hguard => ?_
  refine of_bind_compute (hkept (by decide)) fun out hout => ?_
  have hguards : config.Guards before g out := by
    refine ⟨written, report, text, hwritten, ?_, htext, hguard, hout⟩
    cases hparse : Report.parse written <;> rw [hparse] at hreport <;> cases hreport
    rfl
  refine of_bind_atStep (fun e after _ => ⟨fun h => absurd rfl h.1, nofun⟩) fun _ after hwrite => ?_
  obtain ⟨key, file, hlocate, hdir, hbytes⟩ := exists_file_of_write hguards (writeText_eq_ok hwrite)
  rw [← hbefore] at hguards
  cases hassemble : config.assemble with
  | false =>
      refine ⟨g, out, hguards, fun _ => ?_, rfl, rfl, rfl, rfl⟩
      rw [Files.read_of_locate hlocate hdir, hbytes]
  | true =>
      obtain ⟨hfails, hends⟩ := files_runTool config programs "wat2wasm" config.watPath wasmPath
        after
      have hread (hother : config.BinaryApart) := read_of_wroteAtMost hwasm
        (hother hassemble wasmPath hwasm) hlocate hdir (htool config.watPath wasmPath after)
      refine of_bind_atStep (fun e left h => ?_) fun u left h => ?_
      · rw [← hfails e left h, hbytes] at hread
        exact ⟨fun h => absurd rfl h.2, fun _ => ⟨g, out, hguards, hread⟩⟩
      · rw [← hends u left h, hbytes] at hread
        exact ⟨g, out, hguards, hread, rfl, rfl, rfl, rfl⟩

/-- **A run that fails before it writes leaves the files that it read. One that comes to the end,
or as far as to the assembler, leaves the guarded text in the place of the one that it read, if
the binary form has another name, and tells its guard.** -/
theorem run_in_place (config : GuardConfig) (programs : Programs) (files : Files)
    (htool : WritesOutput programs (Path.join config.toolDirectory "wat2wasm")) :
    config.run programs = withoutStep (config.runInSteps programs) ∧
      config.EndsWith programs files (config.runInSteps programs files) := by
  refine ⟨run_eq_runInSteps config programs, ?_⟩
  rw [runInSteps]
  cases hwasm : config.wasmPath with
  | error e =>
      have hbefore : config.filesBefore programs files = files := by rw [filesBefore, hwasm]
      exact endsWith_error (by decide) hbefore.symm
  | ok wasmPath =>
      have hguard := @guardInSteps_endsWith config programs files _ hwasm htool
      have hbefore : config.filesBefore programs files =
          if files.contains config.watPath then files
          else (programs (Path.join config.toolDirectory "wasm2wat")
            [wasmPath, "-o", config.watPath] files).2 := by
        rw [filesBefore, hwasm]
      change config.EndsWith programs files
        ((if files.contains config.watPath then config.guardInSteps programs wasmPath
          else (atStep .disassemble (config.runTool programs "wasm2wat" wasmPath config.watPath) >>=
            fun _ => config.guardInSteps programs wasmPath)) files)
      cases hthere : files.contains config.watPath with
      | true =>
          rw [hbefore, if_pos hthere] at hguard
          exact hguard
      | false =>
          obtain ⟨hfails, hends⟩ := files_runTool config programs "wasm2wat" wasmPath config.watPath
            files
          rw [hthere, if_neg (by decide)] at hbefore
          refine of_bind_atStep (fun e left h => endsWith_error (by decide) ?_) fun u left h => ?_
          · rw [hbefore, hfails e left h]
          · rw [hbefore, ← hends u left h] at hguard
            exact hguard

lemma readText_of_locate {path : String} {key : List String} {text : List Char}
    (h : files.locate path = .ok (.found (.file key (.ofText text))))
    (hdir : Files.asksDirectory path = false) : files.readText path = .ok text := by
  rw [Files.readText, Files.read_of_locate h hdir]
  simp [File.ofText, Text.decode?_encode, bind, Except.bind, pure, Except.pure]

/-- A run on files that there are, as far as to the assembler. -/
lemma run_of_write {config : GuardConfig} {programs : Programs} {files after : Files}
    {wasmPath : String} {written text : List Char} {report : Report} {g : Guard}
    {out : Instrumented} (hwasm : config.wasmPath = .ok wasmPath)
    (hthere : files.contains config.watPath = true)
    (hwritten : files.readText config.reportPath = .ok written)
    (hreport : Report.parse written = .ok report) (htext : files.readText config.watPath = .ok text)
    (hguard : config.guardOf report text = .ok g) (hout : g.instrument text = .ok out)
    (hwrite : files.write config.watPath (Text.encode out.text) = .ok after)
    (hassemble : config.assemble = true) :
    config.run programs files = (config.runTool programs "wat2wasm" config.watPath wasmPath >>=
      fun _ => pure ⟨g.sets, g.layout, out.refreshed, out.checked, some wasmPath⟩) after := by
  have hread {path : String} {text : List Char} (h : files.readText path = .ok text) :
      readText path files = .ok text files := by
    rw [readText, get_bind, h]
    rfl
  have hput : writeText config.watPath out.text files = .ok () after := by
    rw [writeText, get_bind, hwrite]
    rfl
  rw [run, hwasm, compute_bind, get_bind, hthere]
  change (readText config.reportPath >>= _) files = _
  rw [bind_of_ok (hread hwritten), hreport]
  change (readText config.watPath >>= _) files = _
  rw [bind_of_ok (hread htext), hguard, compute_bind, hout, compute_bind, bind_of_ok hput,
    hassemble]
  rfl

/-! ### A module whose binary form comes beside the text, or in its place -/

/-- A module with a memory and one reference in its table. -/
def plainText : List Char :=
  "(module (memory 2) (table 2 funcref) (func $f) (elem (i32.const 1) func $f))".toList

/-- What it spells. -/
def plainModule : Wat.Module :=
  ⟨plainText, tokens plainText, [⟨2, 5, 1⟩, ⟨6, 10, 1⟩, ⟨11, 14, 1⟩, ⟨15, 23, 1⟩], some 75⟩

/-- Its table. -/
def plainElem : ElemSegment :=
  ⟨["$f".toList], 72, 74⟩

/-- Its guard, shuffled by some words. -/
def plainGuard (words : List UInt32) : Guard :=
  (Guard.ofTable .empty ["$f"]).randomize words

/-- What is added to it. -/
def plainTrailer : List Char :=
  ("\n\t(data (i32.const 65535) \"\\01\\00\\00\\00\")" ++
    "\n\t(global (;0;) (mut i32) (i32.const 65539))").toList

/-- The guarded module. -/
def plainGuarded : List Char :=
  "(module (memory 2) (table 2 funcref) (func $f) (elem (i32.const 1) func $f)".toList ++
    plainTrailer ++ ")".toList

lemma tableOf_plainText : Guard.tableOf plainText = .ok (plainModule, plainElem) := by
  have hforms : forms? (tokens plainText) = some [⟨0, 24, 0⟩, ⟨2, 5, 1⟩, ⟨6, 10, 1⟩, ⟨11, 14, 1⟩,
      ⟨15, 23, 1⟩, ⟨17, 20, 2⟩] := by cbv
  refine Guard.tableOf_eq_ok_iff.mpr ⟨?_, by cbv⟩
  rw [Module.parse?]
  simp only [hforms]
  cbv

/-- One function stays where it is, whatever the words are. -/
lemma layout_plainGuard (words : List UInt32) : (plainGuard words).layout = ⟨[1]⟩ := by
  cbv

lemma trailer_plainGuard (words : List UInt32) : (plainGuard words).trailer 0 = plainTrailer := by
  have hdata : (plainGuard words).dataText = "\"\\01\\00\\00\\00\"".toList := by
    rw [Guard.dataText, layout_plainGuard]
    cbv
  have hend : (plainGuard words).dataEnd = 65539 := by cbv
  have hoffset : (plainGuard words).offset.toNat = 65535 := by cbv
  delta Guard.trailer
  simp only [hdata, hend, hoffset]
  cbv

lemma instrument_plainText (words : List UInt32) :
    (plainGuard words).instrument plainText = .ok ⟨plainGuarded, false, 0⟩ := by
  have hnot : isInstrumented plainText = false := by cbv
  have hfunctions : plainModule.functions = [⟨some ['f'], []⟩] := by decide +kernel
  have hglobal : plainModule.globalCount = 0 := by cbv
  have helem : (plainGuard words).elemList.toList = "$f".toList := by
    rw [Guard.elemList, layout_plainGuard]
    cbv
  have hsplice : splice plainText [⟨72, 74, "$f".toList⟩, ⟨75, 75, plainTrailer⟩] =
      plainGuarded := by cbv
  have hfresh : (plainGuard words).guardFresh plainModule plainElem =
      .ok ⟨splice plainText [(plainGuard words).elemEdit plainElem,
        ⟨75, 75, (plainGuard words).trailer 0⟩], false, 0⟩ := by
    rw [Guard.guardFresh, hfunctions, hglobal]
    rfl
  rw [Guard.instrument, tableOf_plainText]
  simp only [bind, Except.bind, hnot, Bool.false_eq_true, if_false]
  rw [hfresh, trailer_plainGuard, Guard.elemEdit, helem, plainElem, hsplice]

/-- The binary form of the guarded module. Behind its first line are the sections of the types,
functions, tables, memories, globals, elements, code and data, one on each line. -/
def plainBinary : List UInt8 :=
  [0x00, 0x61, 0x73, 0x6d, 0x01, 0x00, 0x00, 0x00,
    0x01, 0x04, 0x01, 0x60, 0x00, 0x00,
    0x03, 0x02, 0x01, 0x00,
    0x04, 0x04, 0x01, 0x70, 0x00, 0x02,
    0x05, 0x03, 0x01, 0x00, 0x02,
    0x06, 0x08, 0x01, 0x7f, 0x01, 0x41, 0x83, 0x80, 0x04, 0x0b,
    0x09, 0x07, 0x01, 0x00, 0x41, 0x01, 0x0b, 0x01, 0x00,
    0x0a, 0x04, 0x01, 0x02, 0x00, 0x0b,
    0x0b, 0x0c, 0x01, 0x00, 0x41, 0xff, 0xff, 0x03, 0x0b, 0x04, 0x01, 0x00, 0x00, 0x00]

/-- An assembler as far as this module goes: it makes the binary form of the guarded module, and
refuses any other text. -/
def plainAssembler : Programs := fun _ arguments files =>
  match arguments with
  | [input, _, output] =>
    if (files.read input).toOption = some (Text.encode plainGuarded) then
      match files.write output plainBinary with
      | .ok after => (.ended (.status 0) [], after)
      | .error _ => (.ended (.status 1) [], files)
    else (.ended (.status 1) [], files)
  | _ => (.ended (.status 1) [], files)

lemma writesOutput_plainAssembler (path : String) : WritesOutput plainAssembler path := by
  intro input output files
  rw [plainAssembler]
  split
  · cases hwrite : files.write output plainBinary with
    | error => exact .inl rfl
    | ok after => exact .inr ⟨plainBinary, hwrite⟩
  · exact .inl rfl

/-- The options of a run on a file. -/
def plain (watPath : String) : GuardConfig :=
  { reportPath := "report", watPath, seed := 0 }

/-- An empty report, and a text. -/
def plainFiles (watPath : String) (text : List Char) : Files :=
  .ofList [("report", .ofText []), (watPath, .ofText text)]

/-- The text is put in the place of the one that is there. -/
lemma put_plainFiles {watPath : String} (hne : watPath ≠ "report")
    (hfiles : ∀ text, plainFiles watPath text =
      ⟨[(["report"], .ofText []), ([watPath], .ofText text)], [], []⟩) (text text' : List Char) :
    (plainFiles watPath text).put [watPath] (.ofText text') = plainFiles watPath text' := by
  rw [hfiles, hfiles, Files.put]
  simp [hne.symm]

/-- The run on the module in a file of the working directory, and its binary form there. -/
lemma run_plain {watPath wasmPath binary : String} (hwasm : (plain watPath).wasmPath = .ok wasmPath)
    (hdir : Files.asksDirectory watPath = false) (hne : watPath ≠ "report")
    (hfiles : ∀ text, plainFiles watPath text =
      ⟨[(["report"], .ofText []), ([watPath], .ofText text)], [], []⟩)
    (hreport : ∀ text, (plainFiles watPath text).locate "report" =
      .ok (.found (.file ["report"] (.ofText []))))
    (hlocate : ∀ text, (plainFiles watPath text).locate watPath =
      .ok (.found (.file [watPath] (.ofText text))))
    (hbinary : ∀ text bytes, (plainFiles watPath text).write wasmPath bytes =
      .ok ((plainFiles watPath text).put [binary] ⟨bytes, false⟩)) :
    ∃ outcome, (plain watPath).run plainAssembler (plainFiles watPath plainText) =
      .ok outcome ((plainFiles watPath plainGuarded).put [binary] ⟨plainBinary, false⟩) := by
  have hthere : (plainFiles watPath plainText).contains watPath = true := by
    rw [Files.contains, Files.find, hlocate]
    simp [hdir, Except.toBool]
  have hwritten : (plainFiles watPath plainText).readText "report" = .ok [] :=
    readText_of_locate (hreport plainText) (by decide)
  have hguard : (plain watPath).guardOf .empty plainText =
      .ok (plainGuard (Random.seededWords 0 (Random.wordsFor 1))) := by
    rw [guardOf, Guard.ofText, tableOf_plainText]
    rfl
  have hwrite : (plainFiles watPath plainText).write watPath (Text.encode plainGuarded) =
      .ok (plainFiles watPath plainGuarded) :=
    (Files.write_of_locate _ (hlocate plainText) hdir).trans
      (congrArg Except.ok (put_plainFiles hne hfiles _ _))
  have htool (path : String) : plainAssembler path [watPath, "-o", wasmPath]
      (plainFiles watPath plainGuarded) =
        (.ended (.status 0) [], (plainFiles watPath plainGuarded).put [binary]
          ⟨plainBinary, false⟩) := by
    rw [plainAssembler, Files.read_of_locate (hlocate plainGuarded) hdir, hbinary]
    exact if_pos rfl
  have hassemble : (plain watPath).runTool plainAssembler "wat2wasm" watPath wasmPath
      (plainFiles watPath plainGuarded) =
        .ok () ((plainFiles watPath plainGuarded).put [binary] ⟨plainBinary, false⟩) := by
    rw [runTool, get_bind, htool]
    rfl
  exact ⟨_, (run_of_write hwasm hthere hwritten rfl (readText_of_locate (hlocate plainText) hdir)
    hguard (instrument_plainText _) hwrite rfl).trans (bind_of_ok hassemble _)⟩

/-- A run that leaves the guarded text, and the binary form beside it. -/
theorem run_in_place_plain :
    WritesOutput plainAssembler (Path.join "." "wat2wasm") ∧ (plain "m.wat").BinaryApart ∧
      (∃ outcome after,
        (plain "m.wat").run plainAssembler (plainFiles "m.wat" plainText) = .ok outcome after ∧
          after.read "m.wat" = .ok (Text.encode plainGuarded) ∧
          after.read "m.wasm" = .ok plainBinary) ∧
      (plain "m.wat").EndsWith plainAssembler (plainFiles "m.wat" plainText)
        ((plain "m.wat").runInSteps plainAssembler (plainFiles "m.wat" plainText)) := by
  have htool := writesOutput_plainAssembler (Path.join "." "wat2wasm")
  have hwasm : (plain "m.wat").wasmPath = .ok "./m.wasm" := rfl
  obtain ⟨outcome, hrun⟩ := run_plain hwasm (by decide) (by decide) (fun _ => rfl) (fun _ => rfl)
    (fun _ => rfl) (fun _ _ => rfl)
  have hread (text : List Char) (bytes : List UInt8) :
      ((plainFiles "m.wat" text).put ["m.wasm"] ⟨bytes, false⟩).read "m.wat" =
          .ok (Text.encode text) ∧
        ((plainFiles "m.wat" text).put ["m.wasm"] ⟨bytes, false⟩).read "m.wasm" = .ok bytes :=
    ⟨rfl, rfl⟩
  refine ⟨htool, fun _ wasmPath h => ?_, ⟨outcome, _, hrun, hread _ _⟩,
    (run_in_place (plain "m.wat") plainAssembler (plainFiles "m.wat" plainText) htool).2⟩
  obtain rfl := Except.ok.inj (hwasm.symm.trans h)
  decide

/-- The binary form of `x.wasm` has another path, which leads to the same file. -/
theorem run_overwrites_text :
    ¬ ∀ (config : GuardConfig) (programs : Programs) (files after : Files) (outcome : GuardOutcome)
      (wasmPath : String), config.wasmPath = .ok wasmPath → config.watPath ≠ wasmPath →
      (∀ path, WritesOutput programs path) → config.run programs files = .ok outcome after →
      ∃ g out, config.Guards (config.filesBefore programs files) g out ∧
        after.read config.watPath = .ok (Text.encode out.text) := by
  intro h
  have hwasm : (plain "x.wasm").wasmPath = .ok "./x.wasm" := rfl
  obtain ⟨outcome, hrun⟩ := run_plain hwasm (by decide) (by decide) (fun _ => rfl) (fun _ => rfl)
    (fun _ => rfl) (fun _ _ => rfl)
  obtain ⟨g, out, -, hleft⟩ := h _ _ _ _ outcome _ hwasm (by decide) writesOutput_plainAssembler
    hrun
  have hread (text : List Char) (bytes : List UInt8) :
      ((plainFiles "x.wasm" text).put ["x.wasm"] ⟨bytes, false⟩).read "x.wasm" = .ok bytes := rfl
  have hbytes : Text.encode out.text = plainBinary :=
    Except.ok.inj (hleft.symm.trans (hread plainGuarded plainBinary))
  have hagain : Text.encode (Text.decodeLossy plainBinary) = plainBinary := by
    rw [← hbytes, Text.decodeLossy_encode]
  exact absurd hagain (by decide +kernel)

end GuardConfig

end CallGuard
