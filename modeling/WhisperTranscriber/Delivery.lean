import WhisperTranscriber.System

/-!
# Delivery through the ring buffer

The producer appends whole ranges to `_audioBuffer`, and the processing thread
takes the oldest bytes and enqueues them as one task.  Nothing else touches the
ring buffer's bytes: `handleOverflow` only enlarges it, and `Stop` leaves it as it
is.  Over any interleaving, the bytes handed to the worker pool, then the block
the thread holds between its read and its enqueue, then the unread bytes, are
exactly the bytes of the successful writes, in order: the ring buffer loses,
duplicates and reorders nothing.

* `idle_step` — while `_running` is clear and no `Stop` is waiting, the thread
  has not started; so `Start` never discards a block in flight.
* `delivery_step` — one step of any thread keeps the delivery equation.
* `enqueued_inFlight_unread_eq_written` — after every run from construction, the
  enqueued bytes, the block in flight and the unread bytes are the written bytes.
-/

namespace WhisperTranscriber

/-- The bytes a report entry puts into the ring buffer. -/
def Obs.writtenBytes : Obs → List UInt8
  | .write bytes true => bytes
  | _ => []

/-- The bytes a report entry hands to the worker pool. -/
def Obs.enqueuedBytes : Obs → List UInt8
  | .enqueue block => block
  | _ => []

/-- The bytes of the successful writes of a report, in order. -/
def writtenBytes (obs : List Obs) : List UInt8 := (obs.map Obs.writtenBytes).flatten

/-- The bytes of the blocks a report enqueues, in order. -/
def enqueuedBytes (obs : List Obs) : List UInt8 := (obs.map Obs.enqueuedBytes).flatten

@[simp] theorem writtenBytes_nil : writtenBytes [] = [] := rfl
@[simp] theorem enqueuedBytes_nil : enqueuedBytes [] = [] := rfl

@[simp] theorem writtenBytes_append (obs₁ obs₂ : List Obs) :
    writtenBytes (obs₁ ++ obs₂) = writtenBytes obs₁ ++ writtenBytes obs₂ := by
  simp [writtenBytes]

@[simp] theorem enqueuedBytes_append (obs₁ obs₂ : List Obs) :
    enqueuedBytes (obs₁ ++ obs₂) = enqueuedBytes obs₁ ++ enqueuedBytes obs₂ := by
  simp [enqueuedBytes]

@[simp] theorem writtenBytes_singleton (o : Obs) : writtenBytes [o] = o.writtenBytes := by
  simp [writtenBytes]

@[simp] theorem enqueuedBytes_singleton (o : Obs) : enqueuedBytes [o] = o.enqueuedBytes := by
  simp [enqueuedBytes]

/-- The block the processing thread has read and not yet enqueued. -/
def ThreadPc.inFlight : ThreadPc → List UInt8
  | .enqueue block => block
  | _ => []

namespace State

/-- While `_running` is clear and no `Stop` is waiting, the thread has not been
started. -/
def Idle (s : State) : Prop := s.running = false → s.stopping = false → s.thread = .notStarted

/-- The delivery equation after the report `obs`. -/
def Delivery (obs : List Obs) (s : State) : Prop :=
  enqueuedBytes obs ++ s.thread.inFlight ++ s.audioBuffer.data = writtenBytes obs

@[simp] theorem handleOverflow_data (s : State) :
    s.handleOverflow.audioBuffer.data = s.audioBuffer.data := by
  unfold handleOverflow; dsimp only; split <;> rfl

@[simp] theorem handleOverflow_thread (s : State) : s.handleOverflow.thread = s.thread := by
  unfold handleOverflow; dsimp only; split <;> rfl

/-- A step that keeps the block in flight and the unread bytes, and reports no
write or enqueue, keeps the delivery equation. -/
theorem delivery_of_frame {obs new : List Obs} {s s' : State} (h : Delivery obs s)
    (hth : s'.thread.inFlight = s.thread.inFlight) (hdata : s'.audioBuffer.data = s.audioBuffer.data)
    (hw : writtenBytes new = []) (he : enqueuedBytes new = []) : Delivery (obs ++ new) s' := by
  rw [Delivery, enqueuedBytes_append, writtenBytes_append, hth, hdata, hw, he, List.append_nil,
    List.append_nil]
  exact h

theorem idle_step {s : State} (e : Event) (h : Idle s) : Idle (s.step e).1 := by
  cases e with
  | start =>
      simp only [step, State.start]
      split
      · simp [Idle]
      · exact h
  | stop =>
      simp only [step, State.stop]
      split
      · simp [Idle]
      · exact h
  | finalize =>
      simp only [step, State.finalize]
      split
      · simp [Idle]
      · exact h
  | thread =>
      intro hr hs
      simp only [step, threadStep_running, threadStep_stopping] at hr hs
      simp [step, threadStep, h hr hs]
  | _ => simpa [Idle, step] using h

theorem delivery_processAudioBuffer {obs : List Obs} {s : State} (playoutBuffer : List UInt8)
    (avgAmplitude : ℚ) (h : Delivery obs s) :
    Delivery (obs ++ (s.processAudioBuffer playoutBuffer avgAmplitude).2)
      (s.processAudioBuffer playoutBuffer avgAmplitude).1 := by
  unfold processAudioBuffer
  dsimp only
  split
  · exact delivery_of_frame h rfl rfl rfl rfl
  · split
    · rename_i bytes _ rb hrb
      rw [Delivery, enqueuedBytes_append, writtenBytes_append, ← h]
      simp [(AudioRingBuffer.write_eq_some hrb).1, Obs.writtenBytes, Obs.enqueuedBytes]
    · exact delivery_of_frame h (by rw [handleOverflow_thread]) (handleOverflow_data _) rfl rfl

theorem delivery_threadStep {obs : List Obs} {s : State} (h : Delivery obs s) :
    Delivery (obs ++ s.threadStep.2) s.threadStep.1 := by
  cases hth : s.thread with
  | read size =>
      simp only [threadStep, hth]
      split
      · rename_i block rb hrb
        obtain ⟨hblock, hrest, -⟩ := AudioRingBuffer.read_eq_some hrb
        rw [Delivery, hth] at h
        rw [Delivery, List.append_nil, ← h]
        simp [ThreadPc.inFlight, hblock, hrest]
      · exact delivery_of_frame h (by rw [hth]; rfl) rfl rfl rfl
  | enqueue block =>
      simp only [threadStep, hth]
      rw [Delivery, hth] at h
      rw [Delivery, enqueuedBytes_append, writtenBytes_append, ← h]
      simp [ThreadPc.inFlight, Obs.writtenBytes, Obs.enqueuedBytes]
  | checkRunning | checkAvailable =>
      simp only [threadStep, hth]
      exact delivery_of_frame h (by rw [hth]; split <;> rfl) rfl rfl rfl
  | returned value =>
      simp only [threadStep, hth]
      exact delivery_of_frame h (by rw [hth]; split <;> rfl) rfl rfl rfl
  | resize => simp only [threadStep, hth]; exact delivery_of_frame h (by rw [hth]; rfl) rfl rfl rfl
  | notStarted | exited => simp only [threadStep, hth]; exact delivery_of_frame h rfl rfl rfl rfl

theorem delivery_step {obs : List Obs} {s : State} (e : Event) (hi : Idle s) (h : Delivery obs s) :
    Delivery (obs ++ (s.step e).2) (s.step e).1 := by
  cases e with
  | processAudioBuffer playoutBuffer avgAmplitude => exact delivery_processAudioBuffer _ _ h
  | start =>
      simp only [step, State.start]
      split
      · rename_i hc
        simp only [Bool.and_eq_true, Bool.not_eq_true'] at hc
        exact delivery_of_frame h (by rw [hi hc.2 hc.1]; rfl) rfl rfl rfl
      · exact delivery_of_frame h rfl rfl rfl rfl
  | stop => simp only [step, State.stop]; split <;> exact delivery_of_frame h rfl rfl rfl rfl
  | finalize =>
      simp only [step, State.finalize]
      split
      · rename_i hc
        simp only [Bool.and_eq_true, beq_iff_eq] at hc
        exact delivery_of_frame h (by rw [hc.2]; rfl) rfl rfl rfl
      · exact delivery_of_frame h rfl rfl rfl rfl
  | thread => exact delivery_threadStep h
  | task i =>
      obtain ⟨tasks, active, hr⟩ := runTask_frame s i
      simp only [step, hr]
      exact delivery_of_frame h rfl rfl rfl rfl
  | whisperFull i result texts =>
      obtain ⟨tasks, hr⟩ := whisperFullReturns_frame s i result texts
      obtain ⟨out, ho⟩ := whisperFullReturns_obs s i result texts
      simp only [step, hr, ho]
      exact delivery_of_frame h rfl rfl (by cases out <;> rfl) (by cases out <;> rfl)

theorem delivery_run (events : List Event) :
    ∀ (s : State) (obs : List Obs), Idle s → Delivery obs s →
      Delivery (obs ++ (s.run events).2) (s.run events).1 := by
  induction events with
  | nil => intro s obs _ h; simpa using h
  | cons e es ih =>
      intro s obs hi h
      rw [run_cons, ← List.append_assoc]
      exact ih _ _ (idle_step e hi) (delivery_step e hi h)

/-- **No lost, duplicated or reordered byte.**  After every run from construction,
the bytes enqueued to the worker pool, then the block the thread has read and not
yet enqueued, then the unread bytes of the ring buffer, are the bytes of the
successful writes in order; so the enqueued bytes are a prefix of them. -/
theorem enqueued_inFlight_unread_eq_written (whisperContext : Bool)
    (speechAudioDevice : Option SpeechAudioDevice) (events : List Event) :
    let r := (init whisperContext speechAudioDevice).run events
    enqueuedBytes r.2 ++ r.1.thread.inFlight ++ r.1.audioBuffer.data = writtenBytes r.2 ∧
      enqueuedBytes r.2 <+: writtenBytes r.2 := by
  have h := delivery_run events (init whisperContext speechAudioDevice) []
    (fun _ _ => rfl) (by simp [Delivery, init, ThreadPc.inFlight])
  rw [List.nil_append] at h
  refine ⟨h, ?_⟩
  rw [← h, List.append_assoc]
  exact List.prefix_append _ _

end State

end WhisperTranscriber
