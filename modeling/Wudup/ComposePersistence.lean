import Wudup.Library.Program
import Wudup.Library.Versioned

/-! Atomic Compose file persistence and backup ownership, with everything outside the program
(Docker, the file system, other writers of the Compose file) played by a schedule. -/
namespace Wudup
open Library Library.Program

/-- What a step of the program can raise. -/
inductive Exn where
  | commandError
  | osError
  | composeTagRewriteError
  | runtimeError
  | retagApplyFailed
  | interrupt
  deriving DecidableEq, Repr

/-- `except Exception` lets interrupts pass. -/
def Exn.isException : Exn → Bool
  | .interrupt => false
  | _ => true

def Exn.isCommandError (e : Exn) : Bool := e == .commandError
def Exn.isOsError (e : Exn) : Bool := e == .osError
def Exn.isRewriteOrOsError (e : Exn) : Bool := e == .osError || e == .composeTagRewriteError

/-- How the outside answers one step: an edit of the Compose file that lands before it, the
exception it raises, and the yes-or-no answer or the listing it returns. -/
structure Choice (β : Type) where
  edit : Option β := none
  raise : Option Exn := none
  answer : Bool := true
  listing : List (String × String) := []
  deriving DecidableEq, Repr

/-- The Compose file and its backup, the outside's remaining answers, the list passed as
`written_hashes`, and the variables of the operation under way. -/
structure World (β Hash S : Type) where
  compose : Versioned β
  schedule : List (Choice β)
  writtenHashes : List Hash := []
  locals : S
  deriving DecidableEq, Repr

variable {β Hash S : Type}

namespace World

/-- The outside's next move: its edit of the Compose file lands and the answer is used up. -/
def advance (w : World β Hash S) : World β Hash S := match w.schedule with
  | [] => w
  | c :: rest => match c.edit with
    | none => { w with schedule := rest }
    | some after => { w with schedule := rest, compose := w.compose.record (.edited after) }

def record (c : Change β) (w : World β Hash S) : World β Hash S :=
  { w with compose := w.compose.record c }

def assign (f : S → S) (w : World β Hash S) : World β Hash S := { w with locals := f w.locals }

def append (h : Hash) (w : World β Hash S) : World β Hash S :=
  { w with writtenHashes := w.writtenHashes ++ [h] }

@[simp] theorem record_compose (c : Change β) (w : World β Hash S) :
    (w.record c).compose = w.compose.record c := rfl
@[simp] theorem record_writtenHashes (c : Change β) (w : World β Hash S) :
    (w.record c).writtenHashes = w.writtenHashes := rfl
@[simp] theorem record_locals (c : Change β) (w : World β Hash S) : (w.record c).locals = w.locals := rfl
@[simp] theorem assign_compose (f : S → S) (w : World β Hash S) : (w.assign f).compose = w.compose := rfl
@[simp] theorem assign_writtenHashes (f : S → S) (w : World β Hash S) :
    (w.assign f).writtenHashes = w.writtenHashes := rfl
@[simp] theorem assign_locals (f : S → S) (w : World β Hash S) : (w.assign f).locals = f w.locals := rfl
@[simp] theorem append_compose (h : Hash) (w : World β Hash S) : (w.append h).compose = w.compose := rfl
@[simp] theorem append_writtenHashes (h : Hash) (w : World β Hash S) :
    (w.append h).writtenHashes = w.writtenHashes ++ [h] := rfl
@[simp] theorem append_locals (h : Hash) (w : World β Hash S) : (w.append h).locals = w.locals := rfl

end World

/-- A condition no move of the outside breaks. -/
def Stable (P : World β Hash S → Prop) : Prop := ∀ w, P w → P w.advance

theorem Stable.of_edit {P : World β Hash S → Prop} (hs : ∀ w rest, P w → P { w with schedule := rest })
    (he : ∀ w c, P w → P (w.record (.edited c))) : Stable P := by
  intro w hw
  unfold World.advance
  split
  · exact hw
  · split
    · exact hs w _ hw
    · exact hs _ _ (he w _ hw)

theorem Stable.and {P Q : World β Hash S → Prop} (hP : Stable P) (hQ : Stable Q) :
    Stable fun w => P w ∧ Q w := fun w hw => ⟨hP w hw.1,hQ w hw.2⟩

abbrev Operation (β Hash S : Type) := Program (World β Hash S) Exn

/-- One step whose outcome the outside decides. -/
def step : Operation β Hash S (Choice β) := do
  let w ← get
  modify World.advance
  match (w.schedule.headD {}).raise with
  | some e => throw e
  | none => pure (w.schedule.headD {})

/-- A Docker command; the result says whether it raised `CommandError`. -/
def command : Operation β Hash S Bool :=
  except (do let _ ← step; pure true) Exn.isCommandError fun _ => pure false

def assign (f : S → S) : Operation β Hash S Unit := modify (World.assign f)

variable {P Q : World β Hash S → Prop}

theorem step_ends (hP : Stable P) : Ends P step (fun _ => P) (fun _ => P) := by
  refine Ends.get_bind fun w hw => Ends.bind (R := fun _ => P) (Ends.modify ?_) fun _ => ?_
  · rintro _ rfl
    exact hP _ hw
  · cases (w.schedule.headD {}).raise with
    | none => exact Ends.pure fun _ h => h
    | some e => exact Ends.throw fun _ h => h

/-- The outside never touches the backup. -/
theorem Stable.backup (c : β) : Stable fun w : World β Hash S => w.compose.backup = some c :=
  Stable.of_edit (fun _ _ h => h) fun _ _ h => h

theorem command_ends (hP : Stable P) : Ends P command (fun _ => P) (fun _ => P) :=
  Keeps.except (Keeps.bind (step_ends hP) fun _ => Keeps.pure) fun _ => Keeps.pure

theorem assign_ends {f : S → S} {E : Exn → World β Hash S → Prop} (h : ∀ w, P w → Q (w.assign f)) :
    Ends P (assign f) (fun _ => Q) E := Ends.modify h

variable (sha256 : β → Hash)

def composeSourceHash (w : World β Hash S) : Hash := sha256 w.compose.content

def syncReplacedCompose (canRollBack : Bool) : Operation β Hash S Bool :=
  except (do let _ ← step; pure true) Exn.isOsError fun _ =>
    if canRollBack then throw .composeTagRewriteError else pure false

/-- Which of WUDup's writers replaces the file. -/
inductive Writer where
  | rewrite
  | rollback
  deriving DecidableEq, Repr

def Writer.change : Writer → β → β → Change β
  | .rewrite => .rewrote
  | .rollback => .restored

/-- The replacement itself, with the written version's hash recorded when it is tracked. -/
def replaced (writer : Writer) (rendered : β) (tracked : Bool) (w : World β Hash S) : World β Hash S :=
  let w' := w.record (writer.change w.compose.content rendered)
  if tracked then w'.append (sha256 rendered) else w'

variable [DecidableEq Hash] in
/-- Replaces the Compose file; the result is false if the folder sync was skipped. Under the
write lock nothing lands between the hash check and the replacement. -/
def atomicReplaceCompose (writer : Writer) (rendered : β) (expectedSourceHash : Option Hash)
    (tracked : Bool) : Operation β Hash S Bool := do
  -- the temporary file, the lock, its owner and mode, and its sync
  let _ ← step
  let w ← get
  if expectedSourceHash.isSome ∧ some (composeSourceHash sha256 w) ≠ expectedSourceHash then
    -- removing the temporary file can fail as well
    let _ ← step
    throw .composeTagRewriteError
  else
    set (replaced sha256 writer rendered tracked w)
    syncReplacedCompose tracked

variable [DecidableEq Hash] in
def restoreComposeBackup (expectedSourceHash : Hash) : Operation β Hash S Bool := do
  let _ ← step
  let w ← get
  match w.compose.backup with
  | none => throw .osError
  | some source => atomicReplaceCompose sha256 .rollback source (some expectedSourceHash) false

/-- Copies the Compose file and syncs the copy; the copy is removed when an `Exception` stops this. -/
def backupCompose : Operation β Hash S Unit := do
  let _ ← step
  modify fun w => w.record (.saved w.compose.content)
  except (do let _ ← step; pure ()) Exn.isException fun e => do
    modify (World.record .removed)
    throw e

def unlinkBackup : Operation β Hash S Unit := do
  let _ ← step
  modify (World.record .removed)

theorem syncReplacedCompose_ends (hQ : Stable Q) (b : Bool) :
    Ends Q (syncReplacedCompose b) (fun _ => Q) (fun _ => Q) :=
  Keeps.except (Keeps.bind (step_ends hQ) fun _ => Keeps.pure)
    fun _ => Keeps.ite Keeps.throw Keeps.pure

variable [DecidableEq Hash] {sha256}

/-- A replacement lands on content with the expected hash, and nothing but the outside moves
before and after it. -/
theorem atomicReplaceCompose_ends {writer : Writer} {rendered : β} {expected : Hash} {tracked : Bool}
    (hP : Stable P) (hQ : Stable Q)
    (h : ∀ w, P w → sha256 w.compose.content = expected → Q (replaced sha256 writer rendered tracked w)) :
    Ends P (atomicReplaceCompose sha256 writer rendered (some expected) tracked) (fun _ => Q)
      (fun _ w => P w ∨ Q w) := by
  refine Ends.bind (Keeps.ends (step_ends hP) fun _ _ => .inl) fun _ => ?_
  refine Ends.get_bind fun w hw => Ends.ite (fun _ => ?_) fun hm => ?_
  · have hs : Ends P step (fun _ => P) fun _ w => P w ∨ Q w := Keeps.ends (step_ends hP) fun _ _ => .inl
    exact Ends.bind (hs.start hw) fun _ => Ends.throw fun _ => .inl
  · have hc : sha256 w.compose.content = expected := by simpa [composeSourceHash] using hm
    refine Ends.bind (R := fun _ => Q) (Ends.modify fun _ _ => h w hw hc) fun _ => ?_
    exact Keeps.ends (syncReplacedCompose_ends hQ tracked) fun _ _ => .inr

theorem restoreComposeBackup_ends {expected : Hash} (hP : Stable P) (hQ : Stable Q)
    (h : ∀ w c, P w → w.compose.backup = some c → sha256 w.compose.content = expected →
      Q (w.record (.restored w.compose.content c))) :
    Ends P (restoreComposeBackup sha256 expected) (fun _ => Q) (fun _ w => P w ∨ Q w) := by
  refine Ends.bind (Keeps.ends (step_ends hP) fun _ _ => .inl) fun _ => ?_
  refine Ends.get_bind fun w hw => ?_
  cases hb : w.compose.backup with
  | none => exact Ends.throw (by rintro _ rfl; exact .inl hw)
  | some c =>
    have hr : Ends (fun v => P v ∧ v.compose.backup = some c)
        (atomicReplaceCompose sha256 .rollback c (some expected) false) (fun _ => Q)
        fun _ v => (P v ∧ v.compose.backup = some c) ∨ Q v :=
      atomicReplaceCompose_ends (hP.and (Stable.backup c)) hQ fun v hv hc => h v c hv.1 hv.2 hc
    refine Ends.start (hr.mono (fun _ h => h) (fun _ _ h => h) ?_) ⟨hw,hb⟩
    rintro _ _ (⟨h,-⟩ | h)
    · exact .inl h
    · exact .inr h

end Wudup
