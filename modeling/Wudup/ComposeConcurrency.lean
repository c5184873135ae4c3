import Mathlib.Logic.Function.Basic
import Wudup.ComposePersistence
import Wudup.Library.Transition

/-! Concurrent writers of one Compose file: each takes its guard hash, loads and renders the text,
and checks and replaces the file at different moments, with edits from outside in between. -/
namespace Wudup
open Library

/-- The functions that rewrite a Compose file from its own text. -/
inductive ApplyPath where
  | tagUpdates
  | tagExclusions
  | digestPins
  | retagUpdates
  | digestUnpins
  | trackingLabel
  deriving DecidableEq, Repr

namespace ComposeConcurrency
variable {β Hash : Type}

/-- One call of a writer: a rewrite with the hash its caller expects, or a restore of backed-up
content. A renderer that yields no text ends the call without a write. -/
inductive Call (β Hash : Type) where
  | apply (path : ApplyPath) (expectedSourceHash : Option Hash) (render : β → Except Exn (Option β))
  | restore (backup : β) (expectedSourceHash : Hash)

/-- How far a call has come: its guard, and the text it loaded with the text to write. -/
inductive Phase (β Hash : Type) where
  | entered
  | guarded (sourceHash : Option Hash)
  | rendered (sourceHash : Option Hash) (source text : β)
  | checked (source text : β)
  | finished

/-- One replacement of the file: by which call, of what content, with what text. -/
structure Write (β Hash : Type) where
  call : Call β Hash
  before : β
  text : β

structure State (β Hash : Type) where
  content : β
  calls : ℕ → Option (Call β Hash × Phase β Hash)
  /-- The call that holds the write lock of the Compose directory. -/
  lock : Option ℕ := none
  writes : List (Write β Hash) := []

inductive Action (β Hash : Type) where
  | edit (after : β)
  | enter (i : ℕ) (call : Call β Hash)
  | takeGuard (i : ℕ)
  | load (i : ℕ)
  | check (i : ℕ)
  | replace (i : ℕ)

variable [DecidableEq Hash] (sha256 : β → Hash)

/-- The hash the replacement will expect; only the tracking repair goes without one. -/
def sourceHash (content : β) : Call β Hash → Option Hash
  | .apply .trackingLabel expected _ => expected
  | .apply .tagExclusions _ _ => some (sha256 content)
  | .apply _ expected _ => some (expected.getD (sha256 content))
  | .restore _ expected => some expected

/-- The text loaded and the text to write; the tracking repair also checks the loaded text. -/
def loadAndRender (content : β) : Call β Hash → Option (β × β)
  | .apply path expected render =>
    if path = .trackingLabel ∧ expected.isSome ∧ some (sha256 content) ≠ expected then none
    else match render content with
      | .ok (some text) => some (content,text)
      | _ => none
  | .restore backup _ => some (backup,backup)

def State.move (s : State β Hash) (i : ℕ) (call : Call β Hash) (phase : Phase β Hash) : State β Hash :=
  { s with calls := Function.update s.calls i (some (call,phase)) }

/-- Edits from outside need no lock; `check` takes it and `replace` gives it back. -/
def step : System (State β Hash) (Action β Hash)
  | s, .edit after => some { s with content := after }
  | s, .enter i call => match s.calls i with
    | none => some (s.move i call .entered)
    | some _ => none
  | s, .takeGuard i => match s.calls i with
    | some (call,.entered) => some (s.move i call (.guarded (sourceHash sha256 s.content call)))
    | _ => none
  | s, .load i => match s.calls i with
    | some (call,.guarded g) => match loadAndRender sha256 s.content call with
      | some (source,text) => some (s.move i call (.rendered g source text))
      | none => some (s.move i call .finished)
    | _ => none
  | s, .check i => match s.calls i, s.lock with
    | some (call,.rendered g source text), none =>
      if g.isSome ∧ some (sha256 s.content) ≠ g then some (s.move i call .finished)
      else some { s.move i call (.checked source text) with lock := some i }
    | _, _ => none
  | s, .replace i => match s.calls i with
    | some (call,.checked _ text) =>
      some { s.move i call .finished with
        content := text, lock := none, writes := ⟨call,s.content,text⟩ :: s.writes }
    | _ => none

/-- A write of a rewrite is what its renderer makes of the content it replaced. -/
def Write.Rendered (w : Write β Hash) : Prop := match w.call with
  | .apply _ _ render => render w.before = .ok (some w.text)
  | .restore _ _ => True

/-- No edit lands between a check and its replacement, and a check that passes belongs to a call whose
loaded text has the hash it is guarded by; a call without a guard checks the text it loaded. -/
def Calm (s : State β Hash) : Action β Hash → Prop
  | .edit _ => s.lock = none
  | .check i => match s.calls i with
    | some (.apply path _ _,.rendered g source _) => match g with
      | some h => path ≠ .trackingLabel → sha256 s.content = h → sha256 source = h
      | none => s.content = source
    | _ => True
  | _ => True

/-- What a call may know once it reached a phase. -/
def Knows : Call β Hash → Phase β Hash → Prop
  | .apply path _ render, .rendered g source text =>
    render source = .ok (some text) ∧ (path = .trackingLabel → ∀ h, g = some h → sha256 source = h)
  | .apply .trackingLabel expected _, .guarded g => g = expected
  | _, _ => True

/-- What every call knows, who holds the lock, and that the file still holds the text of the call
between its check and its replacement. -/
structure Inv (s : State β Hash) : Prop where
  knows : ∀ i call phase, s.calls i = some (call,phase) → Knows sha256 call phase
  locked : ∀ i call source text, s.calls i = some (call,.checked source text) → s.lock = some i
  current : ∀ i path expected render source text,
    s.calls i = some (.apply path expected render,.checked source text) →
      s.content = source ∧ render source = .ok (some text)
  writes : ∀ w ∈ s.writes, w.Rendered

variable {sha256}

omit [DecidableEq Hash] in
/-- A call that moves on without a check changes nothing the others rely on. -/
theorem Inv.move {s : State β Hash} (h : Inv sha256 s) {i : ℕ} {call : Call β Hash} {phase : Phase β Hash}
    (hk : Knows sha256 call phase) (hc : ∀ source text, phase ≠ .checked source text) :
    Inv sha256 (s.move i call phase) where
  knows := by
    intro j c p hj
    by_cases hij : j = i
    · subst hij
      obtain ⟨rfl,rfl⟩ : call = c ∧ phase = p := by simpa [State.move] using hj
      exact hk
    · exact h.knows j c p (by simpa [State.move,hij] using hj)
  locked := by
    intro j c source text hj
    by_cases hij : j = i
    · subst hij
      exact absurd (by simpa [State.move] using hj : call = c ∧ _).2 (hc source text)
    · exact h.locked j c source text (by simpa [State.move,hij] using hj)
  current := by
    intro j path expected render source text hj
    by_cases hij : j = i
    · subst hij
      exact absurd (by simpa [State.move] using hj : call = _ ∧ _).2 (hc source text)
    · exact h.current j path expected render source text (by simpa [State.move,hij] using hj)
  writes := h.writes

omit [DecidableEq Hash] in
/-- While nobody holds the lock, no call is between its check and its replacement. -/
theorem Inv.unchecked {s : State β Hash} (h : Inv sha256 s) (hl : s.lock = none) {i : ℕ}
    {call : Call β Hash} {source text : β} : s.calls i ≠ some (call,.checked source text) := by
  intro hi
  exact absurd (hl.symm.trans (h.locked i call source text hi)) (by simp)

omit [DecidableEq Hash] in
theorem Inv.edit {s : State β Hash} (h : Inv sha256 s) (hl : s.lock = none) (after : β) :
    Inv sha256 { s with content := after } where
  knows := h.knows
  locked := h.locked
  current := fun _ _ _ _ _ _ hi => absurd hi (h.unchecked hl)
  writes := h.writes

theorem knows_load {content source text : β} {call : Call β Hash} {g : Option Hash}
    (hg : Knows sha256 call (.guarded g)) (hl : loadAndRender sha256 content call = some (source,text)) :
    Knows sha256 call (.rendered g source text) := by
  cases call with
  | restore => trivial
  | apply path expected render =>
    simp only [loadAndRender] at hl
    split at hl
    · cases hl
    · rename_i hn
      cases hr : render content with
      | error e => simp [hr] at hl
      | ok r =>
        cases r with
        | none => simp [hr] at hl
        | some t =>
          obtain ⟨rfl,rfl⟩ : content = source ∧ t = text := by simpa [hr] using hl
          refine ⟨hr,?_⟩
          rintro rfl x rfl
          obtain rfl : some x = expected := hg
          simpa using hn

omit [DecidableEq Hash] in
/-- A check that passes in a calm state finds the text its call loaded. -/
theorem current_of_check {s : State β Hash} (hash : Function.Injective sha256) (h : Inv sha256 s) {i : ℕ}
    {path : ApplyPath} {expected : Option Hash} {render : β → Except Exn (Option β)} {g : Option Hash}
    {source text : β} (hi : s.calls i = some (.apply path expected render,.rendered g source text))
    (hc : Calm sha256 s (.check i)) (hg : ¬(g.isSome ∧ some (sha256 s.content) ≠ g)) :
    s.content = source := by
  have hk := h.knows i _ _ hi
  simp only [Calm,hi] at hc
  cases g with
  | none => exact hc
  | some x =>
    have hx : sha256 s.content = x := by simpa using hg
    have hs : sha256 source = x := by
      by_cases hp : path = .trackingLabel
      · exact hk.2 hp x rfl
      · exact hc hp hx
    exact hash (hx.trans hs.symm)

omit [DecidableEq Hash] in
theorem Inv.check {s : State β Hash} (hash : Function.Injective sha256) (h : Inv sha256 s) {i : ℕ}
    {call : Call β Hash} {g : Option Hash} {source text : β}
    (hi : s.calls i = some (call,.rendered g source text)) (hl : s.lock = none)
    (hc : Calm sha256 s (.check i)) (hg : ¬(g.isSome ∧ some (sha256 s.content) ≠ g)) :
    Inv sha256 { s.move i call (.checked source text) with lock := some i } where
  knows := by
    intro j c p hj
    by_cases hij : j = i
    · subst hij
      obtain ⟨rfl,rfl⟩ : call = c ∧ Phase.checked source text = p := by simpa [State.move] using hj
      cases call <;> trivial
    · exact h.knows j c p (by simpa [State.move,hij] using hj)
  locked := by
    intro j c source' text' hj
    by_cases hij : j = i
    · simp [hij]
    · exact absurd (by simpa [State.move,hij] using hj) (h.unchecked hl)
  current := by
    intro j path expected render source' text' hj
    by_cases hij : j = i
    · subst hij
      obtain ⟨rfl,rfl,rfl⟩ : call = _ ∧ source = source' ∧ text = text' := by simpa [State.move] using hj
      exact ⟨current_of_check hash h hi hc hg,(h.knows j _ _ hi).1⟩
    · exact absurd (by simpa [State.move,hij] using hj) (h.unchecked hl)
  writes := h.writes

omit [DecidableEq Hash] in
theorem Inv.replace {s : State β Hash} (h : Inv sha256 s) {i : ℕ} {call : Call β Hash} {source text : β}
    (hi : s.calls i = some (call,.checked source text)) :
    Inv sha256 { s.move i call .finished with
      content := text, lock := none, writes := ⟨call,s.content,text⟩ :: s.writes } where
  knows :=
    have hm : Inv sha256 (s.move i call .finished) := h.move (by cases call <;> trivial) (by simp)
    hm.knows
  locked := by
    intro j c source' text' hj
    by_cases hij : j = i
    · simp [State.move,hij] at hj
    · have hs := h.locked j c source' text' (by simpa [State.move,hij] using hj)
      exact absurd (Option.some.inj (hs.symm.trans (h.locked i _ _ _ hi))) hij
  current := by
    intro j path expected render source' text' hj
    by_cases hij : j = i
    · simp [State.move,hij] at hj
    · have hs := h.locked j _ source' text' (by simpa [State.move,hij] using hj)
      exact absurd (Option.some.inj (hs.symm.trans (h.locked i _ _ _ hi))) hij
  writes := by
    intro w hw
    rcases List.mem_cons.mp hw with rfl | hw
    · cases call with
      | restore => trivial
      | apply path expected render =>
        obtain ⟨hs,hr⟩ := h.current i path expected render source text hi
        exact hs ▸ hr
    · exact h.writes w hw

theorem inv_step (hash : Function.Injective sha256) (s : State β Hash) (a : Action β Hash)
    (t : State β Hash) (h : Inv sha256 s) (hc : Calm sha256 s a) (hs : step sha256 s a = some t) :
    Inv sha256 t := by
  cases a with
  | edit after =>
    cases hs
    exact h.edit hc after
  | enter i call =>
    simp only [step] at hs
    split at hs
    · cases hs
      exact h.move (by cases call <;> trivial) (by simp)
    · cases hs
  | takeGuard i =>
    simp only [step] at hs
    split at hs
    · rename_i call hi
      cases hs
      refine h.move ?_ (by simp)
      rcases call with ⟨path,expected,render⟩ | _
      · cases path <;> trivial
      · trivial
    · cases hs
  | load i =>
    simp only [step] at hs
    split at hs
    · rename_i call g hi
      split at hs
      · rename_i source text hl
        cases hs
        exact h.move (knows_load (h.knows i _ _ hi) hl) (by simp)
      · cases hs
        exact h.move (by cases call <;> trivial) (by simp)
    · cases hs
  | check i =>
    simp only [step] at hs
    split at hs
    · rename_i call g source text hi hl
      split at hs
      · cases hs
        exact h.move (by cases call <;> trivial) (by simp)
      · rename_i hg
        cases hs
        exact h.check hash hi hl hc hg
    · cases hs
  | replace i =>
    simp only [step] at hs
    split at hs
    · rename_i call source text hi
      cases hs
      exact h.replace hi
    · cases hs

/-- A Compose file nobody writes yet. -/
def atStart (content : β) : State β Hash := { content, calls := fun _ => none }

omit [DecidableEq Hash] in
theorem atStart_inv (content : β) : Inv sha256 (atStart content : State β Hash) :=
  ⟨by simp [atStart],by simp [atStart],by simp [atStart],by simp [atStart]⟩

/-- In every interleaving whose edits and checks are calm, each rewrite writes what it renders from
the content it replaces. -/
theorem writes_rendered (hash : Function.Injective sha256) {content : β} {actions : List (Action β Hash)}
    {s : State β Hash} (hc : System.Along (step sha256) (Calm sha256) (atStart content) actions)
    (hr : System.run (step sha256) (atStart content) actions = some s) : ∀ w ∈ s.writes, w.Rendered :=
  (System.run_invariant (inv_step hash) (atStart_inv content) hc hr).writes

/-- A tag rewrite without a hash from its caller, whose renderer writes the next number. -/
def tagCall : Call ℕ ℕ := .apply .tagUpdates none fun n => .ok (some (n+1))

/-- The call alone, after an edit that lands before it. -/
def quiet : List (Action ℕ ℕ) := [.edit 4,.enter 0 tagCall,.takeGuard 0,.load 0,.check 0,.replace 0]

theorem quiet_rendered :
    ∃ s, System.run (step id) (atStart 0) quiet = some s ∧ s.content = 5 ∧ ∀ w ∈ s.writes, w.Rendered := by
  have hc : System.Along (step id) (Calm id) (atStart 0) quiet := by
    simp [quiet,tagCall,System.Along,step,Calm,atStart,State.move,sourceHash,loadAndRender]
  exact ⟨_,rfl,rfl,writes_rendered Function.injective_id hc rfl⟩

/-- An edit after the guard hash was taken is rendered, and undone before the check. -/
def undone : List (Action ℕ ℕ) :=
  [.enter 0 tagCall,.takeGuard 0,.edit 5,.load 0,.edit 0,.check 0,.replace 0]

/-- The undone edit is written although the file no longer held it. -/
theorem undone_edit_written :
    ∃ s w, System.run (step id) (atStart 0) undone = some s ∧ w ∈ s.writes ∧ w.before = 0 ∧ w.text = 6 ∧
      ¬w.Rendered :=
  ⟨_,⟨tagCall,0,6⟩,rfl,List.mem_cons_self,rfl,rfl,by simp [Write.Rendered,tagCall]⟩

end ComposeConcurrency
end Wudup
