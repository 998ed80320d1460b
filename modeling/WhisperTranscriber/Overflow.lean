import WhisperTranscriber.System

/-!
# Reactive growth of the ring buffer

`handleOverflow` is the only code that touches `_overflowCount` or enlarges
`_audioBuffer`, and `ProcessAudioBuffer` calls it once per write that signals
overflow.  Over any interleaving of the threads, the counter and the capacity
are therefore functions of the number of failed writes reported so far.

* `overflowCount_capacity_run` — after every run, `_overflowCount` is the number
  of failed writes modulo 11, and the capacity is `kRingBufferSizeIncrement`
  plus one more increment for every eleven failed writes.
-/

namespace WhisperTranscriber

/-- A report of a write that signalled overflow. -/
def Obs.isFailedWrite : Obs → Bool
  | .write _ false => true
  | _ => false

/-- The number of writes of a report that signalled overflow. -/
def failedWrites (obs : List Obs) : Nat := obs.countP Obs.isFailedWrite

@[simp] theorem failedWrites_nil : failedWrites [] = 0 := rfl

@[simp] theorem failedWrites_append (obs₁ obs₂ : List Obs) :
    failedWrites (obs₁ ++ obs₂) = failedWrites obs₁ + failedWrites obs₂ :=
  List.countP_append _ _ _

namespace State

/-- The overflow law after `k` failed writes. -/
def OverflowLaw (k : Nat) (s : State) : Prop :=
  s.overflowCount = k % 11 ∧
    s.audioBuffer.capacity = kRingBufferSizeIncrement + kRingBufferSizeIncrement * (k / 11)

/-- One failed write: the counter wraps at eleven, and the capacity grows by one
increment exactly then. -/
theorem handleOverflow_law {k : Nat} {s : State} (h : OverflowLaw k s) :
    OverflowLaw (k + 1) s.handleOverflow := by
  obtain ⟨hc, hcap⟩ := h
  unfold handleOverflow
  dsimp only
  split
  · have hk : k % 11 = 10 := by omega
    refine ⟨show 0 = (k + 1) % 11 by omega, ?_⟩
    rw [AudioRingBuffer.increaseWith_capacity, hcap,
      show (k + 1) / 11 = k / 11 + 1 by omega, Nat.mul_succ, Nat.add_assoc]
  · have hk : (k + 1) / 11 = k / 11 := by omega
    exact ⟨by simp only; omega, by rw [hk]; exact hcap⟩

/-- The law survives a step that leaves both members alone and reports no
failed write. -/
private theorem law_of_frame {k : Nat} {s s' : State} (h : OverflowLaw k s)
    (hc : s'.overflowCount = s.overflowCount) (hcap : s'.audioBuffer.capacity = s.audioBuffer.capacity) :
    OverflowLaw k s' := by
  rw [OverflowLaw, hc, hcap]; exact h

theorem processAudioBuffer_law {k : Nat} {s : State} (playoutBuffer : List UInt8) (avgAmplitude : ℚ)
    (h : OverflowLaw k s) :
    OverflowLaw (k + failedWrites (s.processAudioBuffer playoutBuffer avgAmplitude).2)
      (s.processAudioBuffer playoutBuffer avgAmplitude).1 := by
  unfold processAudioBuffer
  dsimp only
  split
  · exact h
  · split
    · rename_i rb hw
      exact law_of_frame h rfl (AudioRingBuffer.write_eq_some hw).2
    · exact handleOverflow_law h

theorem threadStep_law {k : Nat} {s : State} (h : OverflowLaw k s) :
    OverflowLaw (k + failedWrites s.threadStep.2) s.threadStep.1 := by
  unfold threadStep
  split
  · exact h
  · exact h
  · exact h
  · exact h
  · exact h
  · split
    · rename_i hr
      exact law_of_frame h rfl (AudioRingBuffer.read_eq_some hr).2.2
    · exact h
  · exact h
  · exact h

theorem step_law {k : Nat} {s : State} (e : Event) (h : OverflowLaw k s) :
    OverflowLaw (k + failedWrites (s.step e).2) (s.step e).1 := by
  cases e with
  | processAudioBuffer playoutBuffer avgAmplitude => exact processAudioBuffer_law _ _ h
  | start =>
      simp only [step, failedWrites_nil, Nat.add_zero, State.start]
      split <;> exact h
  | stop =>
      simp only [step, failedWrites_nil, Nat.add_zero, State.stop]
      split <;> exact h
  | finalize =>
      simp only [step, failedWrites_nil, Nat.add_zero, State.finalize]
      split <;> exact h
  | thread => exact threadStep_law h
  | task i =>
      obtain ⟨tasks, active, hr⟩ := runTask_frame s i
      simp only [step, hr, failedWrites_nil, Nat.add_zero]
      exact h
  | whisperFull i result texts =>
      obtain ⟨tasks, hr⟩ := whisperFullReturns_frame s i result texts
      have hobs : failedWrites (s.whisperFullReturns i result texts).2 = 0 := by
        obtain ⟨out, ho⟩ := whisperFullReturns_obs s i result texts
        rw [ho]
        cases out <;> rfl
      simp only [step, hr, hobs, Nat.add_zero]
      exact h

theorem run_law {k : Nat} {s : State} (events : List Event) (h : OverflowLaw k s) :
    OverflowLaw (k + failedWrites (s.run events).2) (s.run events).1 := by
  induction events generalizing k s with
  | nil => exact h
  | cons e es ih =>
      rw [run_cons, failedWrites_append, ← Nat.add_assoc]
      exact ih (step_law e h)

/-- **Overflow law**: over every interleaving of the producer, the processing
thread, the owner and the tasks, `_overflowCount` is the number of failed writes
modulo 11 (so never above 10), and the capacity is `kRingBufferSizeIncrement`
plus `kRingBufferSizeIncrement` for every eleven failed writes: it never shrinks
and grows only through `handleOverflow`. -/
theorem overflowCount_capacity_run (whisperContext : Bool)
    (speechAudioDevice : Option SpeechAudioDevice) (events : List Event) :
    let r := (init whisperContext speechAudioDevice).run events
    r.1.overflowCount = failedWrites r.2 % 11 ∧ r.1.overflowCount ≤ 10 ∧
      r.1.audioBuffer.capacity =
        kRingBufferSizeIncrement + kRingBufferSizeIncrement * (failedWrites r.2 / 11) := by
  have h := @run_law 0 (init whisperContext speechAudioDevice) events ⟨rfl, rfl⟩
  rw [Nat.zero_add] at h
  exact ⟨h.1, by rw [h.1]; omega, h.2⟩

end State

end WhisperTranscriber
