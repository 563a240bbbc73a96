import SpriteMachine.Proofs.Restarts

/-!
What lasts. A property of machines that no instruction breaks, and none of the things that a frame does between turns,
is kept by whole frames, whether or not they fault, and by scripts that are run by hand. If the host keeps it, too, it
holds in all that a machine can reach.
-/

namespace SpriteMachine

namespace Machine

structure Persistent (P : Machine → Prop) : Prop where
  effect : ∀ {t : Turn} {i : Instr} {m : Machine}, t.Effect i m → P t.machine → P m
  slot : ∀ {m : Machine} (i : Nat) (t : Option Thread), P m → P (m.setSlot i t)
  sweep : ∀ {m : Machine}, P m → P m.sweep
  clock : ∀ {m : Machine}, P m → P m.readClock.2
  begins : ∀ {m : Machine}, P m → P m.beginFrame
  draw : ∀ {m : Machine}, P m → P m.draw

namespace Persistent

variable {P : Machine → Prop} (hP : Persistent P) {m m' : Machine} {fuel : Nat}

include hP

theorem run {t : Turn} {s : Script} {pc : Nat} (h : (run fuel t s pc).machine? = some m) (ht : P t.machine) : P m := by
  induction fuel generalizing t s pc with
  | zero => cases h
  | succ fuel ih =>
    unfold Machine.run at h
    cases hadvance : advance t s pc with
    | going u r q =>
      rw [hadvance] at h
      obtain ⟨i,next,hfetch⟩ := fetch_of_going hadvance
      exact ih h (hP.effect (effect_of_going hfetch hadvance).1 ht)
    | halted halt =>
      rw [hadvance] at h
      rcases effect_or_eq_of_halted hadvance h with rfl | ⟨i,next,-,h⟩
      · exact ht
      · exact hP.effect h ht

theorem activate {a : Activation} (h : (m.activate fuel a).machine? = some m') (hm : P m) : P m' := by
  unfold Machine.activate at h
  split at h
  · cases h
    exact hm
  · exact hP.run h hm

theorem putBack (i : Nat) (a : Activation) (hm : P m) : P (m.putBack i a) := by
  unfold Machine.putBack
  split
  · exact hP.slot i _ hm
  · exact hm

theorem resume {i : Nat} (h : (m.resume fuel i).machine? = some m') (hm : P m) : P m' := by
  unfold Machine.resume at h
  split at h
  · cases h
    exact hm
  · split at h
    · cases h
      exact hm
    · split at h
      · unfold resumeThread at h
        split at h
        · cases h
          exact hm
        · split at h
          next hactivate =>
            cases h
            exact hP.putBack i _ (hP.activate (by rw [hactivate]; rfl) (hP.slot i _ hm))
          next hactivate =>
            cases h
            exact hP.activate (by rw [hactivate]; rfl) (hP.slot i _ hm)
          · cases h
      · cases h
        exact hP.slot i _ hm

theorem resumeFrom {n i : Nat} (h : (resumeFrom fuel n i m).machine? = some m') (hm : P m) : P m' := by
  induction n generalizing i m with
  | zero => cases h
  | succ n ih =>
    unfold Machine.resumeFrom at h
    split at h
    · split at h
      next hresume => exact ih h (hP.resume (by rw [hresume]; rfl) hm)
      · exact hP.resume h hm
    · cases h
      exact hm

theorem passes {n : Nat} {start budget : Float} (h : (passes fuel start budget n m).machine? = some m') (hm : P m) :
    P m' := by
  induction n generalizing m with
  | zero => cases h
  | succ n ih =>
    unfold Machine.passes pass at h
    cases hresume : Machine.resumeFrom fuel fuel 0 m with
    | done m₁ =>
      have hpass : P m₁.sweep := hP.sweep (hP.resumeFrom (by rw [hresume]; rfl) hm)
      rw [hresume] at h
      dsimp only at h
      split at h
      · split at h
        · exact ih h (hP.clock hpass)
        · cases h
          exact hP.clock hpass
      · cases h
        exact hpass
    | fault m₁ f =>
      rw [hresume] at h
      exact hP.resumeFrom (by rw [hresume]; exact h) hm
    | outOfFuel =>
      rw [hresume] at h
      cases h

theorem step (h : (m.step fuel).machine? = some m') (hm : P m) : P m' := by
  obtain ⟨start,hstep⟩ := m.step_eq fuel
  rw [hstep] at h
  cases hpasses : m.beginFrame.passes fuel start m.beginFrame.settings.frameDuration.milliseconds fuel with
  | done m₁ =>
    rw [hpasses] at h
    cases h
    exact hP.draw (hP.passes (by rw [hpasses]; rfl) (hP.begins hm))
  | fault m₁ f =>
    rw [hpasses] at h
    exact hP.passes (by rw [hpasses]; exact h) (hP.begins hm)
  | outOfFuel =>
    rw [hpasses] at h
    cases h

theorem runDetached {id : Nat} {s : Script} (h : (m.runDetached fuel id s).machine? = some m') (hm : P m) : P m' := by
  unfold Machine.runDetached at h
  split at h
  next hactivate =>
    cases h
    exact hP.activate (by rw [hactivate]; rfl) hm
  next hactivate =>
    cases h
    exact hP.activate (by rw [hactivate]; rfl) hm
  · cases h

theorem reachable {first : Machine} (h : first.Reachable m) (hhost : ∀ {m : Machine} (a : HostAction), P m → P (a.apply m))
    (hstart : ∀ {m : Machine} (id : Nat) (s : Script) (restart : Bool), P m → P (m.startThread id s restart))
    (hfirst : P first) : P m := by
  induction h with
  | first => exact hfirst
  | host _ a ih => exact hhost a ih
  | frame _ hstep ih | fault _ hstep ih => exact hP.step (by rw [hstep]; rfl) ih
  | startThread _ _ _ restart ih => exact hstart _ _ restart ih
  | detached _ _ _ hrun ih | detachedFault _ _ _ hrun ih => exact hP.runDetached (by rw [hrun]; rfl) ih

end Persistent

end Machine

end SpriteMachine
