import Mathlib.Tactic.Lemma
import Mathlib.Tactic.SplitIfs
import CoverProbe.CommandLine.Run
import CoverProbe.CommandLine.Workspace
import CoverProbe.Proofs.Checked

set_option relaxedAutoImplicit false
set_option autoImplicit false

/-!
# Files in memory

What the operations on files do to a workspace. Files come and go; directories stay where they are,
so a path that leads somewhere goes on leading there.

## Main definitions

* `CoverProbe.Workspace.Keeps` — all directories of a workspace are there in another.

## Main results

* `CoverProbe.Workspace.descend_of_keeps` — names lead to the same place where directories are kept.
* `CoverProbe.Workspace.read_of_move` — what is read at the end of a path that a file was moved to.
* `CoverProbe.Workspace.read_of_replaceFile` — a file put in place of another is read back.
-/

namespace CoverProbe.Workspace

variable {w v : Workspace} {place other : List String} {bytes : List UInt8} {path : String}

/-! ## Entries -/

/-- The files at other places are looked up as before. -/
lemma lookup_filter (files : List (List String × List UInt8)) (hne : other ≠ place) :
    (files.filter (·.1 ≠ place)).lookup other = files.lookup other := by
  induction files with
  | nil => rfl
  | cons file rest ih =>
    obtain ⟨name, content⟩ := file
    by_cases hname : name = place
    · subst hname
      rw [List.filter_cons_of_neg (by simp), ih, List.lookup_cons, beq_false_of_ne hne]
    · rw [List.filter_cons_of_pos (by simpa using hname), List.lookup_cons, List.lookup_cons, ih]

/-- No file is left at a place that is filtered out. -/
lemma lookup_filter_self (files : List (List String × List UInt8)) (place : List String) :
    (files.filter (·.1 ≠ place)).lookup place = none := by
  rw [List.lookup_eq_none_iff]
  intro file hfile
  have hne := of_decide_eq_true (List.mem_filter.1 hfile).2
  exact bne_iff_ne.2 hne.symm

/-- A file that is put somewhere is there. -/
lemma entry_put_self (w : Workspace) (place : List String) (bytes : List UInt8) :
    Workspace.entry? (w.put place bytes) place = some (.file bytes) := by
  rw [ entry?, put, List.lookup_cons_self]

/-- Elsewhere, putting a file changes nothing. -/
lemma entry_put_of_ne (hne : other ≠ place) :
    Workspace.entry? (w.put place bytes) other = w.entry? other := by
  rw [ entry?, put, List.lookup_cons, beq_false_of_ne hne, lookup_filter _ hne]
  rfl

/-- Elsewhere, taking a file away changes nothing. -/
lemma entry_drop_of_ne (hne : other ≠ place) :
    Workspace.entry? (w.drop place) other = w.entry? other := by
  rw [ entry?, drop, lookup_filter _ hne]
  rfl

/-- No file is where one was taken away. -/
lemma entry_drop_self : Workspace.entry? (w.drop place) place ≠ some (.file bytes) := by
  rw [ entry?, drop, lookup_filter_self]
  dsimp only
  split_ifs
  · simp
  · simp

/-! ## Places -/

/-- Paths lead through `v` as through `w`: every directory is still there, and paths begin where
they did. -/
structure Keeps (w v : Workspace) : Prop where
  current : v.current = w.current
  directory : ∀ place, w.entry? place = some .directory → v.entry? place = some .directory

/-- Putting a file keeps the directories, unless there is one at its place. -/
lemma keeps_put (h : w.entry? place ≠ some .directory) : Keeps w (w.put place bytes) := by
  refine ⟨rfl, fun other hother => ?_⟩
  rw [entry_put_of_ne, hother]
  rintro rfl
  exact h hother

/-- Taking a file away keeps the directories. -/
lemma keeps_drop (h : w.entry? place ≠ some .directory) : Keeps w (w.drop place) := by
  refine ⟨rfl, fun other hother => ?_⟩
  rw [entry_drop_of_ne, hother]
  rintro rfl
  exact h hother

/-- **Names lead to the same place where directories are kept.** -/
lemma descend_of_keeps (h : Keeps w v) {names : List String} {target : List String}
    (hw : w.descend place names = .ok target) : v.descend place names = .ok target := by
  induction names generalizing place with
  | nil => exact hw
  | cons name rest ih =>
    rw [descend] at hw
    cases hentry : w.entry? place with
    | none =>
      rw [hentry] at hw
      cases hw
    | some entry =>
      rw [hentry] at hw
      cases entry with
      | file content => cases hw
      | directory =>
        rw [descend, h.directory place hentry]
        dsimp only at hw ⊢
        split_ifs at hw ⊢
        · exact ih hw
        · exact ih hw
        · exact ih hw

/-- Paths lead to the same place where directories are kept. -/
lemma locate_of_keeps (h : Keeps w v) (hw : w.locate path = .ok place) :
    v.locate path = .ok place := by
  have hstart : v.start path = w.start path := by rw [start, start, h.current]
  rw [locate, hstart]
  exact descend_of_keeps h hw

/-- The place of a file is where its path leads, and no directory is there. -/
lemma locate_of_locateFile (h : w.locateFile path = .ok place) :
    w.locate path = .ok place ∧ w.entry? place ≠ some .directory := by
  unfold locateFile at h
  dsimp only at h
  split at h
  · cases h
  rename_i name outer hparts
  obtain ⟨target, htarget, h⟩ := Checked.bind_eq_ok.1 h
  split_ifs at h with hname
  · cases h
  have hplain : (Path.parts path).reverse.head? ≠ some "" := fun hlast => hname (.inr (.inr hlast))
  -- A path whose last part is not empty is not shortened.
  have hwhole : (Path.parts path).reverse = name :: outer := by
    rw [← hparts]
    cases hreverse : (Path.parts path).reverse with
    | nil => rfl
    | cons last rest =>
      rw [hreverse] at hplain
      rw [List.dropWhile_cons_of_neg]
      simpa using hplain
  have hparts : Path.parts path = outer.reverse ++ [name] := by
    rw [← List.reverse_reverse (Path.parts path), hwhole, List.reverse_cons]
  rw [locate, hparts]
  have hentry : w.entry? target ≠ some .directory ∧ target = place := by
    cases hfound : w.entry? target with
    | none =>
      rw [hfound] at h
      exact ⟨by simp, Except.ok.inj h⟩
    | some entry =>
      rw [hfound] at h
      cases entry with
      | directory => cases h
      | file content => exact ⟨by simp, Except.ok.inj h⟩
  obtain ⟨hentry, rfl⟩ := hentry
  exact ⟨htarget, hentry⟩

/-! ## Operations -/

/-- What is read is the file where the path leads. -/
lemma read_eq_ok : w.read path = .ok bytes ↔
    ∃ place, w.locate path = .ok place ∧ w.entry? place = some (.file bytes) := by
  rw [read, Checked.bind_eq_ok]
  refine exists_congr fun place => and_congr_right fun _ => ?_
  rcases w.entry? place with _ | content | _
  · simp [throw, throwThe, MonadExceptOf.throw]
  · simp [pure, Except.pure]
  · simp [throw, throwThe, MonadExceptOf.throw]

/-- A file that is read is read as well where the directories and the file are kept. -/
lemma read_of_keeps (h : Keeps w v) (hlocate : w.locate path = .ok place)
    (hentry : v.entry? place = some (.file bytes)) : v.read path = .ok bytes :=
  read_eq_ok.2 ⟨place, locate_of_keeps h hlocate, hentry⟩

/-- What was written to the error stream does not matter to files. -/
lemma read_errors (h : w.read path = .ok bytes) (errors : String) :
    { w with errors }.read path = .ok bytes := by
  obtain ⟨place, hplace, hentry⟩ := read_eq_ok.1 h
  have hkeeps : Keeps w { w with errors } := ⟨rfl, fun _ hdirectory => hdirectory⟩
  exact read_of_keeps hkeeps hplace hentry

/-- Writing puts the file where its path leads. -/
lemma write_eq_ok : write path bytes w = .ok v ↔
    ∃ place, w.locateFile path = .ok place ∧ v = w.put place bytes := by
  rw [write, Checked.bind_eq_ok]
  exact exists_congr fun place => and_congr_right fun _ =>
    ⟨fun h => (Except.ok.inj h).symm, fun h => by rw [h]; rfl⟩

/-- Removing takes the file away from where its path leads. -/
lemma exists_of_remove (h : remove path w = .ok v) :
    ∃ place, w.locateFile path = .ok place ∧ v = w.drop place := by
  obtain ⟨place, hplace, h⟩ := Checked.bind_eq_ok.1 h
  split_ifs at h with hnone
  · cases h
  · exact ⟨place, hplace, (Except.ok.inj h).symm⟩

/-- Moving takes the file away from where it is and puts it where the other path leads. -/
lemma move_eq_ok {source target : String} : move source target w = .ok v ↔
    ∃ bytes place origin, w.read source = .ok bytes ∧ w.locateFile target = .ok place ∧
      w.locate source = .ok origin ∧ v = (w.drop origin).put place bytes := by
  rw [move]
  constructor
  · intro h
    obtain ⟨bytes, hbytes, h⟩ := Checked.bind_eq_ok.1 h
    obtain ⟨place, hplace, h⟩ := Checked.bind_eq_ok.1 h
    obtain ⟨origin, horigin, h⟩ := Checked.bind_eq_ok.1 h
    exact ⟨bytes, place, origin, hbytes, hplace, horigin, (Except.ok.inj h).symm⟩
  · rintro ⟨bytes, place, origin, hbytes, hplace, horigin, rfl⟩
    rw [hbytes, hplace, horigin]
    rfl

/-- Writing keeps the directories. -/
lemma keeps_write (h : write path bytes w = .ok v) : Keeps w v := by
  obtain ⟨place, hplace, rfl⟩ := write_eq_ok.1 h
  exact keeps_put (locate_of_locateFile hplace).2

/-- Removing a file keeps the directories. -/
lemma keeps_remove (h : remove path w = .ok v) : Keeps w v := by
  obtain ⟨place, hplace, rfl⟩ := exists_of_remove h
  exact keeps_drop (locate_of_locateFile hplace).2

/-- A file that was written is read back. -/
lemma read_of_write (h : write path bytes w = .ok v) : v.read path = .ok bytes := by
  have hkeeps := keeps_write h
  obtain ⟨place, hplace, rfl⟩ := write_eq_ok.1 h
  exact read_of_keeps hkeeps (locate_of_locateFile hplace).1 (entry_put_self _ _ _)

/-- A file that is still there when another path was removed is the one that was there before. -/
lemma read_of_remove {gone : String} {content : List UInt8} (h : remove gone w = .ok v)
    (hbefore : w.read path = .ok bytes) (hbehind : v.read path = .ok content) :
    content = bytes := by
  have hkeeps := keeps_remove h
  obtain ⟨place, -, rfl⟩ := exists_of_remove h
  obtain ⟨target, htarget, hbytes⟩ := read_eq_ok.1 hbefore
  obtain ⟨found, hfound, hcontent⟩ := read_eq_ok.1 hbehind
  obtain rfl := Except.ok.inj (hfound.symm.trans (locate_of_keeps hkeeps htarget))
  by_cases hplace : found = place
  · subst hplace
    exact absurd hcontent entry_drop_self
  · rw [entry_drop_of_ne hplace, hbytes] at hcontent
    cases hcontent
    rfl

/-- **A file that was moved is read at the end of its new path.** -/
theorem read_of_move {source target : String} (hread : w.read source = .ok bytes)
    (h : move source target w = .ok v) : v.read target = .ok bytes := by
  obtain ⟨content, place, origin, hcontent, hplace, horigin, rfl⟩ := move_eq_ok.1 h
  obtain rfl := Except.ok.inj (hread.symm.trans hcontent)
  obtain ⟨hlocate, hfree⟩ := locate_of_locateFile hplace
  obtain ⟨found, hfound, hentry⟩ := read_eq_ok.1 hread
  obtain rfl := Except.ok.inj (hfound.symm.trans horigin)
  have hkeeps : Keeps w ((w.drop found).put place bytes) := by
    refine ⟨rfl, fun other hother => ?_⟩
    have hplaced : other ≠ place := fun heq => hfree (heq ▸ hother)
    have hfound : other ≠ found := by
      rintro rfl
      rw [hentry] at hother
      cases hother
    rw [entry_put_of_ne hplaced, entry_drop_of_ne hfound, hother]
  exact read_of_keeps hkeeps hlocate (entry_put_self _ _ _)

/-! ## Putting files in place -/

section Runs

variable {α β : Type}

/-- The second step of a run begins where the first ends. -/
lemma bind_apply (x : StateM Workspace α) (f : α → StateM Workspace β) (w : Workspace) :
    (x >>= f) w = f (x w).1 (x w).2 := rfl

/-- Looking whether something is there changes nothing. -/
lemma isPresent_apply (path : String) (w : Workspace) :
    (Host.isPresent path : StateM Workspace Bool) w = ((w.find? path).isSome, w) := rfl

/-- Looking for a free name changes nothing. -/
lemma exists_freeName (directory name : String) (fuel number : Nat) (w : Workspace) :
    ∃ fresh, (Commands.freeName directory name fuel number : StateM Workspace String) w =
      (fresh, w) := by
  induction fuel generalizing number with
  | zero => exact ⟨_, rfl⟩
  | succ fuel ih =>
    rw [Commands.freeName, bind_apply, isPresent_apply]
    split_ifs
    · exact ih (number + 1)
    · exact ⟨_, rfl⟩

end Runs

/-- The workspace without the file at the end of a path, if there is one that can be removed. -/
def cleared (path : String) (w : Workspace) : Workspace :=
  match (w.find? path).isSome, remove path w with
  | true, .ok v => v
  | _, _ => w

/-- Clearing a path removes what is there, or changes nothing. -/
lemma cleared_cases (path : String) (w : Workspace) :
    cleared path w = w ∨ remove path w = .ok (cleared path w) := by
  unfold cleared
  split
  · rename_i hremove
    exact .inr hremove
  · exact .inl rfl

/-- Removing what is there, if anything is, clears the path. -/
lemma clear_apply {α : Type} (path : String) (next : StateM Workspace α) (w : Workspace) :
    (do
      if ← Host.isPresent path then
        let _ ← Host.removeFile path
      next : StateM Workspace α) w = next (cleared path w) := by
  have hremove : (Host.removeFile path : StateM Workspace _) w = change (remove path) w := rfl
  rw [bind_apply, isPresent_apply, cleared]
  cases (w.find? path).isSome with
  | false => rfl
  | true =>
    rw [if_pos rfl, bind_apply, hremove, change]
    cases remove path w with
    | ok v => rfl
    | error cause => rfl

/-- **A file is put in place by writing it elsewhere, clearing the path and moving the file
there.** -/
lemma exists_replaceFile (path : String) (bytes : List UInt8) (w : Workspace) :
    ∃ fresh, (Commands.replaceFile path bytes : StateM Workspace (Except FileFault Unit)) w =
      match write fresh bytes w with
      | .error cause => (.error cause, w)
      | .ok written =>
        match move fresh path (cleared path written) with
        | .ok v => (.ok (), v)
        | .error _ => (Commands.moveByCopy fresh path : StateM Workspace (Except FileFault Unit))
            (cleared path written) := by
  obtain ⟨fresh, hfresh⟩ := exists_freeName (Path.parent path) (Path.fileName path) 4294967295 0 w
  refine ⟨fresh, ?_⟩
  have hwrite : (Host.writeFile fresh bytes : StateM Workspace _) w =
      change (write fresh bytes) w := rfl
  have hrename : ∀ v, (Host.rename fresh path : StateM Workspace _) v =
      change (move fresh path) v := fun _ => rfl
  rw [Commands.replaceFile, bind_apply, hfresh, bind_apply, hwrite, change]
  cases write fresh bytes w with
  | error cause => rfl
  | ok written =>
    refine (clear_apply path _ written).trans ?_
    rw [bind_apply, hrename, change]
    dsimp only
    cases move fresh path (cleared path written) with
    | ok v => rfl
    | error cause => rfl

/-- What copying does, step by step: the file is read, written under the other path, and removed. -/
lemma moveByCopy_apply (source target : String) (w : Workspace) :
    (Commands.moveByCopy source target : StateM Workspace (Except FileFault Unit)) w =
      match w.read source with
      | .error cause => (.error cause, w)
      | .ok bytes =>
        match write target bytes w with
        | .error cause => (.error cause, w)
        | .ok v => change (remove source) v := by
  have hread : (ExceptT.mk (Host.readFile source) :
      ExceptT FileFault (StateM Workspace) (List UInt8)).run.run w = (w.read source, w) := rfl
  have hwrite : ∀ bytes, (ExceptT.mk (Host.writeFile target bytes) :
      ExceptT FileFault (StateM Workspace) Unit).run.run w = change (write target bytes) w :=
    fun _ => rfl
  rw [Commands.moveByCopy]
  show StateT.run (ExceptT.run _) w = _
  rw [Checked.run_bind, hread]
  cases w.read source with
  | error cause => rfl
  | ok bytes =>
    dsimp only
    rw [Checked.run_bind, hwrite, change]
    cases write target bytes w with
    | error cause => rfl
    | ok v => rfl

/-- Where a file cannot be moved it cannot be copied. -/
lemma moveByCopy_of_move {source target : String} {cause : FileFault}
    (h : move source target w = .error cause) :
    ((Commands.moveByCopy source target : StateM Workspace (Except FileFault Unit)) w).1 ≠
      .ok () := by
  rw [moveByCopy_apply]
  cases hread : w.read source with
  | error cause => simp
  | ok bytes =>
    dsimp only
    cases hwrite : write target bytes w with
    | error cause => simp
    | ok v =>
      obtain ⟨place, hplace, -⟩ := write_eq_ok.1 hwrite
      obtain ⟨origin, horigin, -⟩ := read_eq_ok.1 hread
      have hmove := move_eq_ok.2 ⟨bytes, place, origin, hread, hplace, horigin, rfl⟩
      rw [h] at hmove
      cases hmove

/-- **A file put in place is read back.**

**Proof sketch.** Copying does not succeed where moving failed (`moveByCopy_of_move`), so the file
was moved. It was not removed before that, or it could not have been moved, and so it is the one
that was written (`read_of_write`, `read_of_remove`). -/
theorem read_of_replaceFile
    (h : (Commands.replaceFile path bytes : StateM Workspace (Except FileFault Unit)) w =
      (.ok (), v)) : v.read path = .ok bytes := by
  obtain ⟨fresh, hrun⟩ := exists_replaceFile path bytes w
  rw [h] at hrun
  cases hwrite : write fresh bytes w with
  | error cause =>
    rw [hwrite] at hrun
    cases hrun
  | ok written =>
    rw [hwrite] at hrun
    dsimp only at hrun
    cases hmove : move fresh path (cleared path written) with
    | error cause =>
      rw [hmove] at hrun
      exact absurd (congrArg Prod.fst hrun).symm (moveByCopy_of_move hmove)
    | ok moved =>
      rw [hmove] at hrun
      obtain rfl := (Prod.mk.inj hrun).2
      obtain ⟨content, -, -, hcontent, -⟩ := move_eq_ok.1 hmove
      have hwritten := read_of_write hwrite
      have hsame : content = bytes := by
        rcases cleared_cases path written with hkept | hremoved
        · rw [hkept, hwritten] at hcontent
          exact (Except.ok.inj hcontent).symm
        · exact read_of_remove hremoved hwritten hcontent
      rw [← hsame]
      exact read_of_move hcontent hmove

/-! ## What stays as it is -/

/-- Two workspaces differ in their files at most. -/
def Beside (w v : Workspace) : Prop :=
  v = { w with files := v.files }

lemma Beside.refl (w : Workspace) : Beside w w := rfl

/-- Neither stream is written to. -/
lemma Beside.output (h : Beside w v) : v.output = w.output := by rw [h]

lemma Beside.errors (h : Beside w v) : v.errors = w.errors := by rw [h]

lemma Beside.trans {u : Workspace} (h : Beside w v) (h' : Beside v u) : Beside w u := by
  rw [Beside] at h h' ⊢
  rw [h', h]

/-- Putting a file somewhere and taking one away are changes to the files. -/
lemma beside_put (w : Workspace) (place : List String) (bytes : List UInt8) :
    Beside w (w.put place bytes) := rfl

lemma beside_drop (w : Workspace) (place : List String) : Beside w (w.drop place) := rfl

/-- An operation that changes the files at most. -/
def FilesOnly (operation : Workspace → Except FileFault Workspace) : Prop :=
  ∀ w v, operation w = .ok v → Beside w v

lemma filesOnly_write (path : String) (bytes : List UInt8) : FilesOnly (write path bytes) := by
  intro w v h
  obtain ⟨place, -, rfl⟩ := write_eq_ok.1 h
  exact beside_put w place bytes

lemma filesOnly_remove (path : String) : FilesOnly (remove path) := by
  intro w v h
  obtain ⟨place, -, rfl⟩ := exists_of_remove h
  exact beside_drop w place

lemma filesOnly_move (source target : String) : FilesOnly (move source target) := by
  intro w v h
  obtain ⟨bytes, place, origin, -, -, -, rfl⟩ := move_eq_ok.1 h
  exact (beside_drop w origin).trans (beside_put _ place bytes)

/-- An operation that fails leaves the workspace as it was. -/
lemma FilesOnly.change {operation : Workspace → Except FileFault Workspace}
    (h : FilesOnly operation) (w : Workspace) : Beside w (change operation w).2 := by
  unfold Workspace.change
  split
  · rename_i v hv
    exact h w v hv
  · exact .refl w

/-- Copying a file and removing it changes the files at most. -/
lemma beside_moveByCopy (source target : String) (w : Workspace) : Beside w
    ((Commands.moveByCopy source target : StateM Workspace (Except FileFault Unit)) w).2 := by
  rw [moveByCopy_apply]
  cases w.read source with
  | error cause => exact .refl w
  | ok bytes =>
    dsimp only
    cases hwrite : write target bytes w with
    | error cause => exact .refl w
    | ok v =>
      have hwritten := filesOnly_write target bytes w v hwrite
      exact hwritten.trans ((filesOnly_remove source).change v)

/-- **Putting a file in place changes the files at most**, also if it fails. -/
theorem beside_replaceFile (path : String) (bytes : List UInt8) (w : Workspace) : Beside w
    ((Commands.replaceFile path bytes : StateM Workspace (Except FileFault Unit)) w).2 := by
  obtain ⟨fresh, hrun⟩ := exists_replaceFile path bytes w
  rw [hrun]
  cases hwrite : write fresh bytes w with
  | error cause => exact .refl w
  | ok written =>
    have hcleared : Beside w (cleared path written) := by
      refine (filesOnly_write fresh bytes w written hwrite).trans ?_
      rcases cleared_cases path written with hkept | hremoved
      · rw [hkept]
        exact .refl written
      · exact filesOnly_remove path written _ hremoved
    dsimp only
    cases hmove : move fresh path (cleared path written) with
    | error cause => exact hcleared.trans (beside_moveByCopy fresh path _)
    | ok v => exact hcleared.trans (filesOnly_move fresh path _ v hmove)

/-- What a file was put in place in and what came of it differ in their files at most. -/
lemma beside_of_replaceFile {result : Except FileFault Unit}
    (h : (Commands.replaceFile path bytes : StateM Workspace (Except FileFault Unit)) w =
      (result, v)) : Beside w v := by
  have hbeside := beside_replaceFile path bytes w
  rwa [h] at hbeside

end CoverProbe.Workspace
