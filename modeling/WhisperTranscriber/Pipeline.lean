import WhisperTranscriber.Delivery
import WhisperTranscriber.Overflow
import WhisperTranscriber.Shutdown

/-!
# From the audio device to the worker pool

The audio of a run travels from the `ProcessAudioBuffer` calls through the
accumulator, then through `_audioBuffer.write` into the ring buffer, and from
there through the processing thread into worker-pool tasks.  Each stage is
accounted for on its own: the segmenter writes or keeps every voiced byte
(`Segmenter.processAudioBuffer_bytes`), the ring buffer delivers every byte of a
successful write (`State.delivery_run`), and the join of `Stop`, the only other
code that touches the accumulator, never runs (`State.threadLive_step`).  Put
together, over every interleaving of the threads:

* `enqueued_pending_sublist_voiced` — the bytes handed to the worker pool,
  followed by the audio still inside the transcriber, are the voiced audio of
  the run with the ranges of failed writes cut out, and exactly the voiced audio
  when no write failed.
-/

namespace WhisperTranscriber

/-- The audio a call classifies as voice: its block, when its average amplitude
is positive (`voicePresent_eq`). -/
def Event.voicedBytes : Event → List UInt8
  | .processAudioBuffer playoutBuffer avgAmplitude => if 0 < avgAmplitude then playoutBuffer else []
  | _ => []

/-- The voiced audio of a list of events, in call order. -/
def voicedBytes (events : List Event) : List UInt8 := (events.map Event.voicedBytes).flatten

/-- The bytes a report entry hands to `_audioBuffer.write`, whether the write
succeeds or not. -/
def Obs.attemptedBytes : Obs → List UInt8
  | .write bytes _ => bytes
  | _ => []

/-- The bytes of every write of a report, in order. -/
def attemptedBytes (obs : List Obs) : List UInt8 := (obs.map Obs.attemptedBytes).flatten

@[simp] theorem voicedBytes_nil : voicedBytes [] = [] := rfl

@[simp] theorem voicedBytes_append (es₁ es₂ : List Event) :
    voicedBytes (es₁ ++ es₂) = voicedBytes es₁ ++ voicedBytes es₂ := by
  simp [voicedBytes]

@[simp] theorem voicedBytes_singleton (e : Event) : voicedBytes [e] = e.voicedBytes := by
  simp [voicedBytes]

@[simp] theorem attemptedBytes_nil : attemptedBytes [] = [] := rfl

@[simp] theorem attemptedBytes_append (obs₁ obs₂ : List Obs) :
    attemptedBytes (obs₁ ++ obs₂) = attemptedBytes obs₁ ++ attemptedBytes obs₂ := by
  simp [attemptedBytes]

@[simp] theorem attemptedBytes_singleton (o : Obs) : attemptedBytes [o] = o.attemptedBytes := by
  simp [attemptedBytes]

/-- The successful writes are some of the writes, in order; all of them when
none failed. -/
theorem writtenBytes_sublist_attemptedBytes :
    ∀ obs : List Obs, (writtenBytes obs).Sublist (attemptedBytes obs) ∧
      (failedWrites obs = 0 → writtenBytes obs = attemptedBytes obs)
  | [] => ⟨.slnil, fun _ => rfl⟩
  | o :: obs => by
      obtain ⟨hsub, heq⟩ := writtenBytes_sublist_attemptedBytes obs
      rw [← List.singleton_append, writtenBytes_append, attemptedBytes_append, failedWrites_append]
      cases o with
      | write bytes ok =>
          cases ok
          · have hf : failedWrites [Obs.write bytes false] = 1 := rfl
            simp only [writtenBytes_singleton, attemptedBytes_singleton, Obs.writtenBytes,
              Obs.attemptedBytes, List.nil_append, hf]
            exact ⟨hsub.trans (List.sublist_append_right bytes _), fun h => by omega⟩
          · simp only [writtenBytes_singleton, attemptedBytes_singleton, Obs.writtenBytes,
              Obs.attemptedBytes]
            exact ⟨hsub.append_left bytes, fun h => by rw [heq (by omega)]⟩
      | _ =>
          simp only [writtenBytes_singleton, attemptedBytes_singleton, Obs.writtenBytes,
            Obs.attemptedBytes, List.nil_append]
          exact ⟨hsub, fun h => heq (by omega)⟩

namespace State

/-- The audio inside the transcriber: the block the processing thread has read
and not yet enqueued, the unread bytes of the ring buffer, and the accumulator. -/
def pendingBytes (s : State) : List UInt8 :=
  s.thread.inFlight ++ s.audioBuffer.data ++ s.segmenter.accumulatedByteBuffer

/-- The flow equation after the events `events` and the report `obs`: the bytes
of every write, then the accumulator, are the voiced audio. -/
def Flow (events : List Event) (obs : List Obs) (s : State) : Prop :=
  attemptedBytes obs ++ s.segmenter.accumulatedByteBuffer = voicedBytes events

theorem processAudioBuffer_segmenter (s : State) (playoutBuffer : List UInt8) (avgAmplitude : ℚ) :
    (s.processAudioBuffer playoutBuffer avgAmplitude).1.segmenter =
      (s.segmenter.processAudioBuffer playoutBuffer avgAmplitude).1 := by
  unfold processAudioBuffer
  dsimp only
  split
  · rfl
  · split
    · rfl
    · obtain ⟨rb, n, h⟩ := handleOverflow_frame
        { s with segmenter := (s.segmenter.processAudioBuffer playoutBuffer avgAmplitude).1 }
      rw [h]

theorem attemptedBytes_processAudioBuffer (s : State) (playoutBuffer : List UInt8)
    (avgAmplitude : ℚ) :
    attemptedBytes (s.processAudioBuffer playoutBuffer avgAmplitude).2 =
      (s.segmenter.processAudioBuffer playoutBuffer avgAmplitude).2.toList.flatten := by
  unfold processAudioBuffer
  dsimp only
  split
  · rename_i h; simp [h]
  · rename_i bytes h
    split <;> simp [h, Obs.attemptedBytes]

/-- Every step other than `ProcessAudioBuffer` leaves the accumulator alone and
writes nothing: the join, which clears the accumulator, waits for a thread that
is live. -/
theorem step_segmenter {s : State} {e : Event} (h : ThreadLive s)
    (he : ∀ playoutBuffer avgAmplitude, e ≠ .processAudioBuffer playoutBuffer avgAmplitude) :
    (s.step e).1.segmenter = s.segmenter ∧ attemptedBytes (s.step e).2 = [] := by
  cases e with
  | processAudioBuffer playoutBuffer avgAmplitude => exact absurd rfl (he playoutBuffer avgAmplitude)
  | start => simp only [step, State.start]; split <;> exact ⟨rfl, rfl⟩
  | stop => simp only [step, State.stop]; split <;> exact ⟨rfl, rfl⟩
  | finalize => simp [step, State.finalize, h.1]
  | thread =>
      obtain ⟨rb, th, tasks, hs⟩ := threadStep_frame s
      refine ⟨by simp only [step, hs], ?_⟩
      rcases threadStep_obs s with ho | ⟨block, -, ho⟩ <;> simp [step, ho, Obs.attemptedBytes]
  | task i =>
      obtain ⟨tasks, active, hs⟩ := runTask_frame s i
      simp [step, hs]
  | whisperFull i result texts =>
      obtain ⟨tasks, hs⟩ := whisperFullReturns_frame s i result texts
      obtain ⟨out, ho⟩ := whisperFullReturns_obs s i result texts
      refine ⟨by simp only [step, hs], ?_⟩
      cases out <;> simp [step, ho, Obs.attemptedBytes]

/-- One step keeps the flow equation, provided a block it processes has even
length, so that its re-encoding is the block itself. -/
theorem flow_step {events : List Event} {obs : List Obs} {s : State} (e : Event)
    (hlive : ThreadLive s) (h : Flow events obs s)
    (heven : ∀ playoutBuffer avgAmplitude,
      e = .processAudioBuffer playoutBuffer avgAmplitude → Even playoutBuffer.length) :
    Flow (events ++ [e]) (obs ++ (s.step e).2) (s.step e).1 := by
  rw [Flow] at h ⊢
  by_cases hp : ∃ playoutBuffer avgAmplitude, e = .processAudioBuffer playoutBuffer avgAmplitude
  · obtain ⟨playoutBuffer, avgAmplitude, rfl⟩ := hp
    have hbytes := s.segmenter.processAudioBuffer_bytes playoutBuffer avgAmplitude
    rw [pcm16Encode_pcm16Decode (heven _ _ rfl), voicePresent_eq] at hbytes
    simp only [step, attemptedBytes_append, attemptedBytes_processAudioBuffer,
      processAudioBuffer_segmenter, List.append_assoc, hbytes, voicedBytes_append,
      voicedBytes_singleton, Event.voicedBytes, ← h]
    by_cases ha : 0 < avgAmplitude <;> simp [ha]
  · push_neg at hp
    obtain ⟨hseg, hatt⟩ := step_segmenter hlive hp
    have hv : e.voicedBytes = [] := by
      cases e with
      | processAudioBuffer playoutBuffer avgAmplitude => exact absurd rfl (hp playoutBuffer avgAmplitude)
      | _ => rfl
    simp [hseg, hatt, h, hv]

theorem flow_run (events : List Event) :
    ∀ (s : State) (done : List Event) (obs : List Obs), ThreadLive s → Flow done obs s →
      (∀ playoutBuffer avgAmplitude,
        Event.processAudioBuffer playoutBuffer avgAmplitude ∈ events → Even playoutBuffer.length) →
      Flow (done ++ events) (obs ++ (s.run events).2) (s.run events).1 := by
  induction events with
  | nil => intro s done obs _ h _; simpa using h
  | cons e es ih =>
      intro s done obs hlive h heven
      rw [run_cons, ← List.append_assoc, show done ++ e :: es = (done ++ [e]) ++ es by simp]
      exact ih _ _ _ (threadLive_step e hlive)
        (flow_step e hlive h fun b a he => heven b a (he ▸ List.mem_cons_self _ _))
        fun b a hm => heven b a (List.mem_cons_of_mem _ hm)

/-- The two accounts of a run from construction: the bytes enqueued, in flight
and unread are the bytes of the successful writes, and the bytes of every write,
then the accumulator, are the voiced audio. -/
theorem run_init_accounts (whisperContext : Bool) (speechAudioDevice : Option SpeechAudioDevice)
    (events : List Event)
    (heven : ∀ playoutBuffer avgAmplitude,
      Event.processAudioBuffer playoutBuffer avgAmplitude ∈ events → Even playoutBuffer.length) :
    enqueuedBytes ((init whisperContext speechAudioDevice).run events).2 ++
        ((init whisperContext speechAudioDevice).run events).1.thread.inFlight ++
        ((init whisperContext speechAudioDevice).run events).1.audioBuffer.data =
      writtenBytes ((init whisperContext speechAudioDevice).run events).2 ∧
    attemptedBytes ((init whisperContext speechAudioDevice).run events).2 ++
        ((init whisperContext speechAudioDevice).run events).1.segmenter.accumulatedByteBuffer =
      voicedBytes events := by
  have hlive : ThreadLive (init whisperContext speechAudioDevice) := by simp [ThreadLive, init]
  have hflow := flow_run events (init whisperContext speechAudioDevice) [] [] hlive
    (by simp [Flow, init, Segmenter.init]) heven
  have hdel := delivery_run events (init whisperContext speechAudioDevice) []
    (fun _ _ => rfl) (by simp [Delivery, init, ThreadPc.inFlight])
  simp only [Flow, List.nil_append] at hflow
  simp only [Delivery, List.nil_append] at hdel
  exact ⟨hdel, hflow⟩

/-- **End to end.**  Over every interleaving of the producer, the owner, the
processing thread and the worker tasks, from construction and with blocks of
even length: the bytes enqueued to the worker pool, followed by the audio still
inside the transcriber, are the voiced audio of the run with some written ranges
cut out (those whose write failed), and are exactly the voiced audio when no
write failed.  No byte is invented, duplicated or reordered on the way. -/
theorem enqueued_pending_sublist_voiced (whisperContext : Bool)
    (speechAudioDevice : Option SpeechAudioDevice) (events : List Event)
    (heven : ∀ playoutBuffer avgAmplitude,
      Event.processAudioBuffer playoutBuffer avgAmplitude ∈ events → Even playoutBuffer.length) :
    (enqueuedBytes ((init whisperContext speechAudioDevice).run events).2 ++
        ((init whisperContext speechAudioDevice).run events).1.pendingBytes).Sublist
      (voicedBytes events) ∧
    (failedWrites ((init whisperContext speechAudioDevice).run events).2 = 0 →
      enqueuedBytes ((init whisperContext speechAudioDevice).run events).2 ++
        ((init whisperContext speechAudioDevice).run events).1.pendingBytes = voicedBytes events) := by
  obtain ⟨hdel, hflow⟩ := run_init_accounts whisperContext speechAudioDevice events heven
  obtain ⟨hsub, heq⟩ := writtenBytes_sublist_attemptedBytes ((init whisperContext speechAudioDevice).run events).2
  have hpend : enqueuedBytes ((init whisperContext speechAudioDevice).run events).2 ++
      ((init whisperContext speechAudioDevice).run events).1.pendingBytes =
      writtenBytes ((init whisperContext speechAudioDevice).run events).2 ++
        ((init whisperContext speechAudioDevice).run events).1.segmenter.accumulatedByteBuffer := by
    rw [← hdel, pendingBytes]; simp
  rw [hpend, ← hflow]
  exact ⟨hsub.append_right _, fun h => by rw [heq h]⟩

theorem enqueued_pending_sublist_voiced_one_block :
    let events := [Event.start, .processAudioBuffer (List.replicate 32000 0) 1,
      .processAudioBuffer (List.replicate 16000 0) 0, .thread, .thread, .thread, .thread, .thread]
    (∀ playoutBuffer avgAmplitude,
      Event.processAudioBuffer playoutBuffer avgAmplitude ∈ events → Even playoutBuffer.length) ∧
    (enqueuedBytes ((init true none).run events).2 ++ ((init true none).run events).1.pendingBytes).Sublist
      (voicedBytes events) ∧
    (failedWrites ((init true none).run events).2 = 0 →
      enqueuedBytes ((init true none).run events).2 ++ ((init true none).run events).1.pendingBytes =
        voicedBytes events) := by
  intro events
  have heven : ∀ playoutBuffer avgAmplitude,
      Event.processAudioBuffer playoutBuffer avgAmplitude ∈ events → Even playoutBuffer.length := by
    intro playoutBuffer avgAmplitude h
    simp only [events, List.mem_cons, Event.processAudioBuffer.injEq, List.mem_singleton,
      reduceCtorEq, false_or, or_false, List.not_mem_nil] at h
    rcases h with ⟨rfl, -⟩ | ⟨rfl, -⟩ <;> rw [List.length_replicate] <;> decide
  exact ⟨heven, enqueued_pending_sublist_voiced true none events heven⟩

end State

end WhisperTranscriber
