import Wudup.ComposePersistence
import Wudup.Models

/-! The Docker commands around an update: stopping, recreating and waiting for services. None of
them touches the Compose file or its backup. -/
namespace Wudup
open Library Library.Program

variable {β Hash S : Type}

/-- Does something only under a condition. -/
def whenever (c : Bool) (x : Operation β Hash S Unit) : Operation β Hash S Unit :=
  if c then x else pure ()

/-- A report to the log or to the progress listener. -/
def progress : Operation β Hash S Unit := do let _ ← step

/-- A question to Docker that is answered, or raises. -/
def ask : Operation β Hash S Bool := do return (← step).answer

def restoreServicesStopped : Operation β Hash S Unit := do
  let stopped ← command
  whenever (!stopped) progress

def verifyServicesStopped : Operation β Hash S UpResult := do
  let runningCids ← except (do return some (← step).listing) Exn.isCommandError fun _ => pure none
  if runningCids = some [] then
    return ⟨true,false⟩
  else
    progress
    restoreServicesStopped
    return ⟨false,false⟩

def runComposeUpNoStart : Operation β Hash S UpResult := do
  if ← command then
    verifyServicesStopped
  else
    progress
    return ⟨false,false⟩

/-- Native waiting is not used while services are paused. -/
def upWait (mode : UpdateMode) : Operation β Hash S Bool := if mode = .pause then pure false else ask

def runComposeUp (mode : UpdateMode) : Operation β Hash S UpResult := do
  let wait ← upWait mode
  if ← command then
    return ⟨true,wait⟩
  else
    progress
    return ⟨false,wait⟩

def waitForHealth : Operation β Hash S Bool := do
  progress
  let ok ← ask
  progress
  return ok

variable {P : World β Hash S → Prop} (hP : Stable P)
include hP

theorem progress_keeps : Keeps P progress := Keeps.bind (step_ends hP) fun _ => Keeps.pure

theorem ask_keeps : Keeps P ask := Keeps.bind (step_ends hP) fun _ => Keeps.pure

omit hP in
theorem whenever_keeps {c : Bool} {x : Operation β Hash S Unit} (hx : Keeps P x) :
    Keeps P (whenever c x) := Keeps.ite hx Keeps.pure

theorem restoreServicesStopped_keeps : Keeps P restoreServicesStopped :=
  Keeps.bind (command_ends hP) fun _ => whenever_keeps (progress_keeps hP)

theorem verifyServicesStopped_keeps : Keeps P verifyServicesStopped := by
  refine Keeps.bind (Keeps.except ?_ fun _ => Keeps.pure) fun _ => Keeps.ite Keeps.pure ?_
  · exact Keeps.bind (step_ends hP) fun _ => Keeps.pure
  · exact Keeps.bind (progress_keeps hP) fun _ =>
      Keeps.bind (restoreServicesStopped_keeps hP) fun _ => Keeps.pure

theorem runComposeUpNoStart_keeps : Keeps P runComposeUpNoStart := by
  refine Keeps.bind (command_ends hP) fun _ => Keeps.ite (verifyServicesStopped_keeps hP) ?_
  exact Keeps.bind (progress_keeps hP) fun _ => Keeps.pure

theorem runComposeUp_keeps (mode : UpdateMode) : Keeps P (runComposeUp mode) := by
  refine Keeps.bind (Keeps.ite Keeps.pure (ask_keeps hP)) fun _ => ?_
  refine Keeps.bind (command_ends hP) fun _ => Keeps.ite Keeps.pure ?_
  exact Keeps.bind (progress_keeps hP) fun _ => Keeps.pure

theorem waitForHealth_keeps : Keeps P waitForHealth :=
  Keeps.bind (progress_keeps hP) fun _ => Keeps.bind (ask_keeps hP) fun _ =>
    Keeps.bind (progress_keeps hP) fun _ => Keeps.pure

end Wudup
