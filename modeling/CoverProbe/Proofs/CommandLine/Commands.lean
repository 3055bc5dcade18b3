import CoverProbe.Proofs.CommandLine.Workspace
import CoverProbe.Proofs.Unit.TreeFile

set_option relaxedAutoImplicit false
set_option autoImplicit false

/-!
# Commands on sources and on containers

A command that uses a tree does the same with the source of the tree and with its container. What it
puts out depends on the settings, on what is asked for, on the tree and on the seed; the input comes
in through the tree alone.

## Main definitions

* `CoverProbe.Commands.Offers` — an input holds certain bytes.
* `CoverProbe.Commands.Use` — the commands that use a tree, without the input it is in.
* `CoverProbe.Commands.Use.product` — what such a command puts out.
* `CoverProbe.Commands.Stores` — a run stores bytes in a file.
* `CoverProbe.Commands.SameOutput` — two runs put out the same.

## Main results

* `CoverProbe.Commands.delivers_execute` — what a command does, once its input holds a tree.
* `CoverProbe.Commands.delivers_assemble` — what assembling does, once its input holds a source.
* `CoverProbe.Commands.stores_deliver` — what is delivered to a file is stored in it.
* `CoverProbe.Commands.container_stands_for_source` — a container means the same as its source.
-/

namespace CoverProbe.Commands

/-! ## Inputs -/

/-- The input holds the bytes. A hyphen, or no name, is the standard input. -/
def Offers (w : Workspace) (input : Option String) (bytes : List UInt8) : Prop :=
  match input.filter (· ≠ "-") with
  | none => w.input = bytes
  | some path => w.read path = .ok bytes

variable {w v : Workspace} {input : Option String} {bytes : List UInt8} {s : Settings}
  {root : CodeUnit}

/-- What an input holds is read from it. -/
lemma run_readInput (h : Offers w input bytes) :
    (readInput input : Run (StateM Workspace) (List UInt8)).run.run w = (.ok bytes, w) := by
  unfold Offers at h
  unfold readInput
  cases hname : input.filter (· ≠ "-") with
  | none =>
    rw [hname] at h
    rw [← h]
    rfl
  | some path =>
    rw [hname] at h
    show ((w.read path).mapError _, w) = _
    rw [h]
    rfl

/-- **The tree in an input is the one that its bytes are read as.** -/
lemma run_loadTree (h : Offers w input bytes) :
    (loadTree s input : Run (StateM Workspace) CodeUnit).run.run w =
      ((TreeFile.read s.sign bytes).mapError .tree, w) := by
  rw [loadTree, Checked.run_bind, run_readInput h]
  rfl

/-! ## What commands put out -/

/-- What a command puts out: the bytes for its output and the report for the error stream. -/
structure Product where
  data : List UInt8
  report : String := ""

/-- The commands that use a tree, without the input it is in. -/
inductive Use
  /-- Puts probes into the tree. -/
  | weave (request : WeaveRequest)
  /-- Shows the tree. -/
  | dump (json : Bool)
  /-- Looks for faults in the tree. -/
  | verify

namespace Use

/-- The command that uses the tree in an input. -/
def on (use : Use) (input : Option String) : Command :=
  match use with
  | weave request => .weave { request with input }
  | dump json => .dump input json
  | verify => .verify input

/-- The file that the command writes, if it is not the standard output. -/
def output : Use → Option String
  | weave request => request.output
  | dump _ | verify => none

/-- The check that is made before the tree is read. -/
def check (s : Settings) : Use → Except CommandFault Unit
  | weave request => (overridden s request).validate.mapError .settings
  | dump _ | verify => .ok ()

/-- What the command puts out for a tree. `seed` is used if none was asked for. -/
def product (s : Settings) (root : CodeUnit) (seed : UInt64) : Use → Except CommandFault Product
  | weave request => do
    let weaver : Weaver ChaCha := (overridden s request).weaver .standard
    let run := (weaver.treeWithReport root (!request.nested)).run
      (ChaCha.ofSeed (request.seed.getD seed))
    let (result, report) ← run.1.mapError .weave
    let data ← (Container.encode result).mapError .unit
    return ⟨data, if request.report then reportText report else ""⟩
  | dump json => do
    let text ← (shown s.sign json root).mapError .unit
    return ⟨Utf8.encode text, ""⟩
  | verify => do
    (root.validateTree .standard s.sign).mapError .invalidTree
    return ⟨Utf8.encode s!"OK {root.treeLength} unit(s)\n", ""⟩

end Use

/-- What becomes of the report once a file was put in place: it goes to the error stream if the file
is there. -/
def reported (path report : String) :
    Except FileFault Unit × Workspace → Except CommandFault Unit × Workspace
  | (.ok (), w) => (.ok (), { w with errors := w.errors ++ report })
  | (.error cause, w) => (.error (.output path cause), w)

/-- Puts something out: to the standard output or to a file, and then to the error stream. -/
def deliver (output : Option String) (product : Product) (w : Workspace) :
    Except CommandFault Unit × Workspace :=
  match output with
  | none =>
    (.ok (), { w with output := w.output ++ product.data, errors := w.errors ++ product.report })
  | some path =>
    reported path product.report
      ((replaceFile path product.data : StateM Workspace (Except FileFault Unit)) w)

/-! ## What commands do -/

/-- Delivers what was found to put out; a failure changes nothing. -/
def outcome (output : Option String) (w : Workspace) :
    Except CommandFault Product → Except CommandFault Unit × Workspace
  | .error fault => (.error fault, w)
  | .ok product => deliver output product w

/-- A command finds what to put out and delivers it, or fails and changes nothing. -/
def Delivers (x : Run (StateM Workspace) Unit) (output : Option String) (w : Workspace)
    (found : Except CommandFault Product) : Prop :=
  x.run.run w = outcome output w found

variable {output : Option String} {found : Except CommandFault Product}

/-- A step that fails or gives a result belongs to what is found. -/
lemma Delivers.pureRun_bind {ε α : Type} {fault : ε → CommandFault} {result : Except ε α}
    {f : α → Run (StateM Workspace) Unit} {g : α → Except CommandFault Product}
    (h : ∀ a, Delivers (f a) output w (g a)) :
    Delivers (pureRun fault result >>= f) output w (result.mapError fault >>= g) := by
  rw [Delivers, Checked.run_bind]
  cases result with
  | error cause => rfl
  | ok a => exact h a

/-- A step that asks the host for something goes before. -/
lemma Delivers.bind_of_run {α : Type} {x : Run (StateM Workspace) α} {a : α}
    {f : α → Run (StateM Workspace) Unit} (hx : x.run.run w = (.ok a, w))
    (h : Delivers (f a) output w found) : Delivers (x >>= f) output w found := by
  rw [Delivers, Checked.run_bind, hx]
  exact h

/-- What becomes of the result of an operation on a file. -/
lemma run_fileRun {α : Type} (fault : FileFault → CommandFault)
    (operation : StateM Workspace (Except FileFault α)) (w : Workspace) :
    (fileRun fault operation : Run (StateM Workspace) α).run.run w =
      ((operation w).1.mapError fault, (operation w).2) := rfl

/-- The report goes out behind the output, if that could be written. -/
lemma delivers_report (output : Option String) (product : Product) (w : Workspace) :
    Delivers (writeOutput output product.data >>= fun _ =>
      (Host.writeError product.report : StateM Workspace Unit)) output w (.ok product) := by
  rw [Delivers, Checked.run_bind]
  cases output with
  | none =>
    rw [writeOutput, outcome, deliver]
    rfl
  | some path =>
    rw [writeOutput, run_fileRun, outcome, deliver]
    -- Searching a free name would not end soon, so the search is not looked into from here on.
    generalize (replaceFile path product.data : StateM Workspace (Except FileFault Unit)) w = put
    rcases put with ⟨cause | _, v⟩
    · rfl
    · rfl

/-- Without a report, writing the output is all there is to do. -/
lemma delivers_output (output : Option String) (data : List UInt8) (w : Workspace) :
    Delivers (writeOutput output data) output w (.ok ⟨data, ""⟩) := by
  rw [Delivers, ← delivers_report output ⟨data, ""⟩ w, Checked.run_bind]
  generalize (writeOutput output data : Run (StateM Workspace) Unit).run.run w = written
  rcases written with ⟨cause | _, v⟩
  · rfl
  · show (_, v) = (_, { v with errors := v.errors ++ "" })
    rw [String.append_empty]

/-- Weaving into a tree, once the input holds it. -/
lemma delivers_weave (request : WeaveRequest)
    (hload : (loadTree s request.input : Run (StateM Workspace) CodeUnit).run.run w =
      (.ok root, w)) :
    Delivers (Commands.weave s request) request.output w
      ((Use.weave request).check s >>= fun _ => (Use.weave request).product s root w.seed) := by
  -- Where the seed comes from is all that it matters for.
  have hseed : ∀ outcome : Except WeaveFault (CodeUnit × WeaveReport), Delivers (do
      let (result, report) ← pureRun .weave outcome
      writeOutput request.output (← pureRun .unit (Container.encode result))
      if request.report then (Host.writeError (reportText report) : StateM Workspace Unit))
      request.output w (do
        let (result, report) ← outcome.mapError .weave
        let data ← (Container.encode result).mapError .unit
        return ⟨data, if request.report then reportText report else ""⟩) := by
    intro outcome
    refine .pureRun_bind fun (result, report) => .pureRun_bind fun data => ?_
    cases request.report with
    | true => exact delivers_report request.output ⟨data, reportText report⟩ w
    | false =>
      rw [if_neg Bool.false_ne_true, if_neg Bool.false_ne_true, bind_pure_unit]
      exact delivers_output request.output data w
  rw [Commands.weave]
  refine .pureRun_bind fun _ => .bind_of_run hload ?_
  rw [Use.product]
  cases hasked : request.seed with
  | some seed => exact hseed _
  | none => exact .bind_of_run rfl (hseed _)

/-- **What a command does, once its input holds a tree**: it makes its check, finds what to put out,
and delivers that. -/
theorem delivers_execute (use : Use) (hinput : Offers w input bytes)
    (hroot : TreeFile.read s.sign bytes = .ok root) :
    Delivers (execute s (use.on input)) use.output w
      (use.check s >>= fun _ => use.product s root w.seed) := by
  have hload : (loadTree s input : Run (StateM Workspace) CodeUnit).run.run w = (.ok root, w) := by
    rw [run_loadTree hinput, hroot]
    rfl
  cases use with
  | weave request => exact delivers_weave { request with input } hload
  | dump json =>
    refine .bind_of_run hload (.pureRun_bind fun text => ?_)
    exact delivers_output none (Utf8.encode text) w
  | verify =>
    refine .bind_of_run hload (.pureRun_bind fun _ => ?_)
    exact delivers_output none _ w

/-- **What assembling does, once its input holds a source**: it delivers the container. -/
theorem delivers_assemble {source : String} {data : List UInt8} (output : Option String)
    (hinput : Offers w input (Utf8.encode source))
    (hroot : Source.assemble s.sign source = .ok root) (hdata : Container.encode root = .ok data) :
    Delivers (execute s (.assemble input output)) output w (.ok ⟨data, ""⟩) := by
  have htree : (pureRun .tree (TreeFile.assemble s.sign (Utf8.encode source)) :
      Run (StateM Workspace) CodeUnit).run.run w = (.ok root, w) := by
    rw [TreeFile.assemble_of_assemble hroot]
    rfl
  have hbytes : (pureRun .unit (Container.encode root) :
      Run (StateM Workspace) (List UInt8)).run.run w = (.ok data, w) := by
    rw [hdata]
    rfl
  refine .bind_of_run (run_readInput hinput) (.bind_of_run htree (.bind_of_run hbytes ?_))
  exact delivers_output output data w

/-! ## The same output -/

/-- A run that began in `w` stores bytes in a file and reports it to the error stream, or stops
because the file cannot be written. Apart from that it writes to no stream. -/
inductive Stores (path : String) (product : Product) (w : Workspace) :
    Except CommandFault Unit × Workspace → Prop
  | done {v : Workspace} (hread : v.read path = .ok product.data) (houtput : v.output = w.output)
      (herrors : v.errors = w.errors ++ product.report) : Stores path product w (.ok (), v)
  | refused {v : Workspace} (cause : FileFault) (houtput : v.output = w.output)
      (herrors : v.errors = w.errors) : Stores path product w (.error (.output path cause), v)

/-- Two runs of a command, begun in `w` and `v`, put out the same: both fail with the same fault,
both write the same to the streams, or both have the same to store in the file asked for. Whether a
file can be written depends on the files around it. -/
inductive SameOutput (w v : Workspace) : (output : Option String) →
    Except CommandFault Unit × Workspace → Except CommandFault Unit × Workspace → Prop
  | failed {output : Option String} (fault : CommandFault) :
      SameOutput w v output (.error fault, w) (.error fault, v)
  | streamed (product : Product) :
      SameOutput w v none
        (.ok (), { w with
          output := w.output ++ product.data, errors := w.errors ++ product.report })
        (.ok (), { v with
          output := v.output ++ product.data, errors := v.errors ++ product.report })
  | stored {path : String} {x y : Except CommandFault Unit × Workspace} (product : Product)
      (hx : Stores path product w x) (hy : Stores path product v y) : SameOutput w v (some path) x y

/-- **What is delivered to a file is stored in it.** -/
theorem stores_deliver (path : String) (product : Product) (w : Workspace) :
    Stores path product w (deliver (some path) product w) := by
  rw [deliver]
  cases hput : (replaceFile path product.data : StateM Workspace (Except FileFault Unit)) w with
  | mk result v =>
  have hbeside := Workspace.beside_of_replaceFile hput
  rcases result with cause | _
  · exact .refused cause hbeside.output hbeside.errors
  · have hread := Workspace.read_errors (Workspace.read_of_replaceFile hput)
    exact .done (hread _) hbeside.output (congrArg (· ++ product.report) hbeside.errors)

/-- Without a report, delivering to a file changes the files at most. -/
lemma beside_deliver {path : String} {data : List UInt8}
    (h : deliver (some path) ⟨data, ""⟩ w = (.ok (), v)) : Workspace.Beside w v := by
  rw [deliver] at h
  cases hput : (replaceFile path data : StateM Workspace (Except FileFault Unit)) w with
  | mk result u =>
  rw [hput] at h
  rcases result with cause | _
  · cases h
  · rw [reported, String.append_empty] at h
    obtain rfl := (Prod.mk.inj h).2
    exact Workspace.beside_of_replaceFile hput

/-- Two runs that find the same put out the same. -/
lemma sameOutput_outcome (found : Except CommandFault Product) :
    SameOutput w v output (outcome output w found) (outcome output v found) := by
  rcases found with fault | product
  · exact .failed fault
  · cases output with
    | none => exact .streamed product
    | some path =>
      exact .stored product (stores_deliver path product w) (stores_deliver path product v)

/-- A command in a workspace. -/
def perform (s : Settings) (command : Command) (w : Workspace) :
    Except CommandFault Unit × Workspace :=
  (execute s command : Run (StateM Workspace) Unit).run.run w

/-- Commands that find the same tree in their inputs, with the same seed at hand, put out the
same. -/
lemma sameOutput_perform {text container : Option String} {bytes : List UInt8}
    {bytes' : List UInt8} (use : Use) (hw : Offers w text bytes)
    (hroot : TreeFile.read s.sign bytes = .ok root) (hv : Offers v container bytes')
    (hroot' : TreeFile.read s.sign bytes' = .ok root) (hseed : v.seed = w.seed) :
    SameOutput w v use.output (perform s (use.on text) w) (perform s (use.on container) v) := by
  rw [perform, perform, delivers_execute use hw hroot, delivers_execute use hv hroot', hseed]
  exact sameOutput_outcome _

/-- **A container stands for its source.** Let a source be assembled to a tree and the tree have a
container. The source does not begin like a container. The tree is loaded from inputs that hold the
source, and, with any settings, from inputs that hold the container. In a workspace that has both, a
command that uses the tree does the same on either, to the last file. A container that was assembled
into a file is read back from there, and one that was assembled to the standard output is what came
out. A command that goes on from that file or takes that output for its input puts out what the
command on the source would have put out in the first place.

**Proof sketch.** A text that is assembled does not begin with a letter
(`TreeFile.isContainer_of_assemble`), so either kind of input is read as what it is
(`TreeFile.read_of_assemble`, `TreeFile.read_of_encode`). A command is told by its tree and its seed
(`delivers_execute`). -/
theorem container_stands_for_source {source : String} {data : List UInt8}
    (hroot : Source.assemble s.sign source = .ok root) (hdata : Container.encode root = .ok data) :
    ¬ Container.magic <+: Utf8.encode source ∧
      (∀ w input, Offers w input (Utf8.encode source) →
        (loadTree s input : Run (StateM Workspace) CodeUnit).run.run w = (.ok root, w)) ∧
      (∀ s' w input, Offers w input data →
        (loadTree s' input : Run (StateM Workspace) CodeUnit).run.run w = (.ok root, w)) ∧
      (∀ w text container (use : Use), Offers w text (Utf8.encode source) →
        Offers w container data →
        perform s (use.on container) w = perform s (use.on text) w) ∧
      (∀ w v text path (use : Use), Offers w text (Utf8.encode source) →
        perform s (.assemble text (some path)) w = (.ok (), v) →
        v.read path = .ok data ∧ Workspace.Beside w v ∧ (path ≠ "-" → SameOutput w v use.output
          (perform s (use.on text) w) (perform s (use.on (some path)) v))) ∧
      ∀ w text (use : Use), Offers w text (Utf8.encode source) →
        perform s (.assemble text none) w = (.ok (), { w with output := w.output ++ data }) ∧
          SameOutput w { w with input := data } use.output
            (perform s (use.on text) w) (perform s (use.on none) { w with input := data }) := by
  have hread := TreeFile.read_of_assemble hroot
  have hread' : ∀ sign, TreeFile.read sign data = .ok root := fun _ => TreeFile.read_of_encode hdata
  have hassemble : ∀ {w text} output, Offers w text (Utf8.encode source) →
      perform s (.assemble text output) w = deliver output ⟨data, ""⟩ w :=
    fun output htext => delivers_assemble output htext hroot hdata
  refine ⟨fun hmagic => ?_, fun w input hinput => ?_, fun s' w input hinput => ?_,
    fun w text container use htext hcontainer => ?_, fun w v text path use htext hrun => ?_,
    fun w text use htext => ⟨?_, ?_⟩⟩
  · have hnone := TreeFile.isContainer_of_assemble hroot
    rw [TreeFile.isContainer, List.isPrefixOf_iff_prefix.2 hmagic] at hnone
    cases hnone
  · rw [run_loadTree hinput, hread]
    rfl
  · rw [run_loadTree hinput, hread']
    rfl
  · exact (delivers_execute use hcontainer (hread' _)).trans (delivers_execute use htext hread).symm
  · have hdeliver := (hassemble (some path) htext).symm.trans hrun
    have hbeside := beside_deliver hdeliver
    have hstores := stores_deliver path ⟨data, ""⟩ w
    rw [hdeliver] at hstores
    obtain ⟨hfile, -, -⟩ := hstores
    refine ⟨hfile, hbeside, fun hname => sameOutput_perform use htext hread ?_ (hread' _) ?_⟩
    · rw [Offers, Option.filter_some, if_pos (by simpa using hname)]
      exact hfile
    · rw [hbeside]
  · rw [hassemble none htext, deliver, String.append_empty]
  · exact sameOutput_perform use htext hread rfl (hread' _) rfl

/-- A source that begins with a comment. -/
def sevenText : String :=
  "; seven\n.unit m 1\n.const int 7\n2: LOAD_CONST 0\nRETURN\n.end"

/-- What it is assembled to. -/
def sevenTree : CodeUnit :=
  ⟨"m", 1, [0x10, 0, 0, 0, 0, 0x12], [.int 7], [0, 1]⟩

/-- A workspace with the source in a file and some bytes on the standard input. -/
def shelf (data : List UInt8) : Workspace where
  current := []
  directories := []
  files := [(["a"], Utf8.encode sevenText)]
  input := data

/-- The source in the one file is assembled into another, and weaving into either puts out the same,
as it does for the container on the standard input. -/
theorem container_stands_for_source_sevenText :
    ∃ data, Source.assemble .signed sevenText = .ok sevenTree ∧
      Container.encode sevenTree = .ok data ∧
      (¬ Container.magic <+: Utf8.encode sevenText) ∧
      (loadTree {} (some "a") : Run (StateM Workspace) CodeUnit).run.run (shelf data) =
        (.ok sevenTree, shelf data) ∧
      (loadTree { sign := .unsigned } none : Run (StateM Workspace) CodeUnit).run.run
        (shelf data) = (.ok sevenTree, shelf data) ∧
      ∀ request : WeaveRequest,
        perform {} ((Use.weave request).on none) (shelf data) =
          perform {} ((Use.weave request).on (some "a")) (shelf data) ∧
        ∃ v, perform {} (.assemble (some "a") (some "b")) (shelf data) = (.ok (), v) ∧
          v.read "b" = .ok data ∧
          SameOutput (shelf data) v request.output
            (perform {} ((Use.weave request).on (some "a")) (shelf data))
            (perform {} ((Use.weave request).on (some "b")) v) := by
  have hroot : Source.assemble .signed sevenText = .ok sevenTree := rfl
  obtain ⟨data, hdata⟩ : ∃ data, Container.encode sevenTree = .ok data := ⟨_, rfl⟩
  have htext : Offers (shelf data) (some "a") (Utf8.encode sevenText) := by
    show (shelf data).read "a" = _
    rfl
  -- Only the result is computed: the workspace has a checksum in it.
  have hdone : (deliver (some "b") ⟨data, ""⟩ (shelf data)).1 = .ok () := rfl
  have hput := delivers_assemble (s := {}) (some "b") htext hroot hdata
  cases hdeliver : deliver (some "b") ⟨data, ""⟩ (shelf data) with
  | mk result v =>
  rw [hdeliver] at hdone
  obtain rfl : result = .ok () := hdone
  obtain ⟨hmagic, hsource, hcontainer, hsame, hfile, -⟩ :=
    container_stands_for_source (s := {}) hroot hdata
  refine ⟨data, hroot, hdata, hmagic, hsource _ _ htext, hcontainer _ _ none rfl,
    fun request => ⟨hsame _ _ none (.weave request) htext rfl, v, hput.trans hdeliver, ?_⟩⟩
  obtain ⟨hread, -, hthrough⟩ := hfile _ v _ "b" (.weave request) htext (hput.trans hdeliver)
  exact ⟨hread, hthrough (by decide)⟩

end CoverProbe.Commands
