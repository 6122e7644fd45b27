import AppSupervisor.Registry.Notification
import AppSupervisor.RunState

namespace AppSupervisor.RunState

/-- A process of the runner is known, and its end has not been reported. -/
def hasProcess : RunState → Bool
  | running | stopped | terminating => true
  | starting | terminated => false

/-- The states that may directly follow a state. -/
inductive Next : RunState → RunState → Prop
  | launched : Next starting running
  | stopped : Next running stopped
  | continued : Next stopped running
  | asked {s} (h : s = running ∨ s = stopped) : Next s terminating
  | ended {s} (h : s.hasProcess) : Next s terminated

variable {s s' : RunState}

theorem ne_starting (h : s.hasProcess) : s ≠ starting := by
  rintro rfl
  simp [hasProcess] at h

theorem ne_terminated (h : s.hasProcess) : s ≠ terminated := by
  rintro rfl
  simp [hasProcess] at h

theorem Next.ne_starting (h : Next s s') : s' ≠ starting := by
  cases h <;> simp

theorem Next.of_isGone (h : s.Next s') (gone : s.isGone) : s' = terminated := by
  cases h with
  | asked h => rcases h with rfl | rfl <;> simp [isGone] at gone
  | ended _ => rfl
  | _ => simp [isGone] at gone

theorem reported_of_not_isGone (here : ¬s.isGone) :
    (s.reported = .running ∨ s.reported = .stopped) ∧ (s.reported = .stopped ↔ s = stopped) := by
  cases s <;> simp [isGone, reported] at here ⊢

theorem hasProcess_afterReport (hs : s.hasProcess) (hr : s' = running ∨ s' = stopped) :
    (Registry.afterReport s' s).hasProcess := by
  unfold Registry.afterReport
  split
  next => exact hs
  next => rcases hr with rfl | rfl <;> rfl

theorem afterReport_next (hs : s.hasProcess) (hr : s' = running ∨ s' = stopped) :
    Registry.afterReport s' s = s ∨ s.Next (Registry.afterReport s' s) := by
  cases s with
  | starting => simp [hasProcess] at hs
  | terminated => simp [hasProcess] at hs
  | terminating => exact Or.inl rfl
  | running =>
    rcases hr with rfl | rfl
    · exact Or.inl rfl
    · exact Or.inr .stopped
  | stopped =>
    rcases hr with rfl | rfl
    · exact Or.inr .continued
    · exact Or.inl rfl

end AppSupervisor.RunState
