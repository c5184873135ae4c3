import Mathlib.Data.List.Basic

/-! A file that is backed up before it is rewritten, as the history of what happened to it. -/
namespace Library

/-- What can happen to a versioned file and its backup. -/
inductive Change (β : Type) where
  | saved (content : β)
  | rewrote (before after : β)
  | restored (before after : β)
  | edited (after : β)
  | removed
  deriving DecidableEq, Repr

/-- A change that came from outside. -/
def Change.isEdit {β : Type} : Change β → Bool
  | .edited _ => true
  | _ => false

/-- The content a file starts with and its changes, newest first. -/
structure Versioned (β : Type) where
  initial : β
  history : List (Change β) := []
  deriving DecidableEq, Repr

namespace Versioned
variable {β : Type}

def record (c : Change β) (f : Versioned β) : Versioned β := { f with history := c :: f.history }

def contentAfter (initial : β) : List (Change β) → β
  | [] => initial
  | .rewrote _ after :: _ | .restored _ after :: _ | .edited after :: _ => after
  | .saved _ :: rest | .removed :: rest => contentAfter initial rest

/-- What the file holds now. -/
def content (f : Versioned β) : β := contentAfter f.initial f.history

/-- What the backup file holds now, when it exists. -/
def backup (f : Versioned β) : Option β := go f.history
where
  go : List (Change β) → Option β
    | [] | .removed :: _ => none
    | .saved c :: _ => some c
    | _ :: rest => go rest

/-- The content of the last backup taken, also after the backup file is gone. -/
def savedIn : List (Change β) → Option β
  | [] => none
  | .saved c :: _ => some c
  | _ :: rest => savedIn rest

/-- The content the last rewrite left; a restore is not a rewrite. -/
def lastRewrite : List (Change β) → Option β
  | [] => none
  | .rewrote _ after :: _ => some after
  | _ :: rest => lastRewrite rest

/-- Every replacement was of the content backed up or of the content of the last rewrite. -/
def RewritesOwn : List (Change β) → Prop
  | [] => True
  | .rewrote before _ :: rest | .restored before _ :: rest =>
    (savedIn rest = some before ∨ lastRewrite rest = some before) ∧ RewritesOwn rest
  | _ :: rest => RewritesOwn rest

/-- Every restore was of the content of the last rewrite, and put the backed-up content back. -/
def RestoresOwn : List (Change β) → Prop
  | [] => True
  | .restored before after :: rest =>
    (lastRewrite rest = some before ∧ savedIn rest = some after) ∧ RestoresOwn rest
  | _ :: rest => RestoresOwn rest

/-- No rewrite comes right after an edit from outside. -/
def undisturbed : List (Change β) → Bool
  | [] => true
  | .rewrote _ _ :: rest => !rest.head?.any Change.isEdit && undisturbed rest
  | _ :: rest => undisturbed rest

/-- The last replacement put the backed-up content back. -/
def PutBack : List (Change β) → Prop
  | .restored _ after :: rest => savedIn rest = some after
  | .edited _ :: rest | .removed :: rest => PutBack rest
  | _ => False

instance decidableRewritesOwn [DecidableEq β] : (h : List (Change β)) → Decidable (RewritesOwn h)
  | [] => isTrue trivial
  | .rewrote before _ :: rest | .restored before _ :: rest =>
    have := decidableRewritesOwn rest
    inferInstanceAs (Decidable ((savedIn rest = some before ∨ lastRewrite rest = some before) ∧
      RewritesOwn rest))
  | .saved _ :: rest | .edited _ :: rest | .removed :: rest => decidableRewritesOwn rest

@[simp] theorem record_history (c : Change β) (f : Versioned β) :
    (f.record c).history = c :: f.history := rfl
@[simp] theorem content_saved (c : β) (f : Versioned β) : (f.record (.saved c)).content = f.content := rfl
@[simp] theorem content_rewrote (b a : β) (f : Versioned β) : (f.record (.rewrote b a)).content = a := rfl
@[simp] theorem content_restored (b a : β) (f : Versioned β) : (f.record (.restored b a)).content = a := rfl
@[simp] theorem content_edited (a : β) (f : Versioned β) : (f.record (.edited a)).content = a := rfl
@[simp] theorem content_removed (f : Versioned β) : (f.record .removed).content = f.content := rfl
@[simp] theorem backup_saved (c : β) (f : Versioned β) : (f.record (.saved c)).backup = some c := rfl
@[simp] theorem backup_rewrote (b a : β) (f : Versioned β) :
    (f.record (.rewrote b a)).backup = f.backup := rfl
@[simp] theorem backup_restored (b a : β) (f : Versioned β) :
    (f.record (.restored b a)).backup = f.backup := rfl
@[simp] theorem backup_edited (a : β) (f : Versioned β) : (f.record (.edited a)).backup = f.backup := rfl
@[simp] theorem backup_removed (f : Versioned β) : (f.record .removed).backup = none := rfl

/-- A backup file that exists holds what was backed up last. -/
theorem savedIn_of_backup {f : Versioned β} {c : β} (h : f.backup = some c) : savedIn f.history = some c := by
  obtain ⟨initial,history⟩ := f
  induction history with
  | nil => simp [backup,backup.go] at h
  | cons e rest ih =>
    cases e with
    | saved => exact h
    | removed => simp [backup,backup.go] at h
    | rewrote | restored | edited => exact ih h

/-- After the backed-up content was put back, the file holds it or someone else edited it since. -/
theorem PutBack.split {h : List (Change β)} (hp : PutBack h) :
    ∃ later before after earlier, h = later ++ .restored before after :: earlier ∧
      savedIn h = some after ∧ ∀ e ∈ later, e = .removed ∨ ∃ c, e = .edited c := by
  induction h with
  | nil => exact hp.elim
  | cons e rest ih =>
    cases e with
    | saved | rewrote => exact hp.elim
    | restored b a => exact ⟨[],b,a,rest,rfl,hp,by simp⟩
    | edited c =>
      obtain ⟨later,b,a,earlier,rfl,hs,hl⟩ := ih hp
      refine ⟨.edited c :: later,b,a,earlier,rfl,hs,?_⟩
      simpa using hl
    | removed =>
      obtain ⟨later,b,a,earlier,rfl,hs,hl⟩ := ih hp
      refine ⟨.removed :: later,b,a,earlier,rfl,hs,?_⟩
      simpa using hl

/-- The file holds what was put back unless someone else edited it since. -/
theorem content_putBack {f : Versioned β} {later earlier : List (Change β)} {before after : β}
    (h : f.history = later ++ .restored before after :: earlier) (hl : ∀ e ∈ later, e = .removed) :
    f.content = after := by
  obtain ⟨initial,history⟩ := f
  subst h
  induction later with
  | nil => rfl
  | cons e later ih =>
    obtain rfl := hl e (by simp)
    exact ih fun e he => hl e (by simp [he])

/-- Only edits from outside have happened to the file since. -/
def EditedSince (before now : Versioned β) : Prop :=
  now.initial = before.initial ∧ ∃ edits, now.history = edits ++ before.history ∧ ∀ e ∈ edits, e.isEdit = true

theorem EditedSince.refl (f : Versioned β) : EditedSince f f := ⟨rfl,[],rfl,by simp⟩

theorem EditedSince.edited {before now : Versioned β} (h : EditedSince before now) (c : β) :
    EditedSince before (now.record (.edited c)) := by
  obtain ⟨hi,edits,he,ha⟩ := h
  refine ⟨hi,.edited c :: edits,by simp [he],?_⟩
  simpa [Change.isEdit] using ha

/-- A rewrite that no edit comes right before replaced what the file held earlier. -/
theorem EditedSince.content {before now : Versioned β} (h : EditedSince before now) {b a : β}
    (hu : undisturbed (now.record (.rewrote b a)).history = true) : now.content = before.content := by
  obtain ⟨hi,edits,he,ha⟩ := h
  cases edits with
  | nil =>
    obtain ⟨initial,history⟩ := now
    obtain rfl : initial = before.initial := hi
    obtain rfl : history = before.history := he
    rfl
  | cons e rest => simp [undisturbed,he,ha e (by simp)] at hu

/-- The backup is still there, or the last replacement put its content back and only edits from
outside came after; without such an edit the file holds the backed-up content. -/
def Recoverable (f : Versioned β) : Prop :=
  (∃ c, f.backup = some c ∧ savedIn f.history = some c) ∨
    ∃ later before saved earlier, f.history = later ++ .restored before saved :: earlier ∧
      savedIn f.history = some saved ∧ (∀ e ∈ later, e = .removed ∨ ∃ c, e = .edited c) ∧
      ((∀ c, .edited c ∉ later) → f.content = saved)

theorem recoverable {f : Versioned β} (h : f.backup ≠ none ∨ PutBack f.history) : f.Recoverable := by
  rcases h with hb | hp
  · obtain ⟨c,hc⟩ := Option.ne_none_iff_exists'.mp hb
    exact .inl ⟨c,hc,savedIn_of_backup hc⟩
  · obtain ⟨later,before,saved,earlier,he,hs,hl⟩ := hp.split
    refine .inr ⟨later,before,saved,earlier,he,hs,hl,fun hc => content_putBack he fun e hm => ?_⟩
    rcases hl e hm with h | ⟨c,rfl⟩
    · exact h
    · exact absurd hm (hc c)

end Versioned
end Library
