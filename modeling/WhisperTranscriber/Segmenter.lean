import WhisperTranscriber.Pcm16
import Mathlib.Tactic.Linarith

/-!
# The voice-activity segmenter of `ProcessAudioBuffer`

One call of `ProcessAudioBuffer` decodes the block, decides whether it carries
voice from the `SilenceFinder` average amplitude, re-encodes it, and then runs
one of two branches:

* voice: open a segment if none is open, append the block to
  `_accumulatedByteBuffer`, and flush `kTargetSamples` bytes once that many
  have accumulated (continuous speech);
* no voice: add the block's size to `_silentSamplesCount` and, inside a segment
  once the count reaches `kSilenceSamples`, close the segment and flush
  `min(size, kTargetSamples)` bytes if at least `kSampleRate * 2` accumulated
  (end of speech).

`SilenceFinder` is not part of the sources, so the average amplitude is an input
of each call.  The result of a call is the new state together with the byte range
handed to `_audioBuffer.write`, if any; the ring buffer itself is modelled in
`RingBuffer`.

* `voicePresent_eq` — the voice decision is `0 < avgAmplitude` in both states:
  each threshold multiplies the amplitude it is compared with.
* `processAudioBuffer_bytes` — what a call writes, followed by the new
  accumulator, is the old accumulator followed by the block if it was voiced.
-/

namespace WhisperTranscriber

/-- `relativeThreshold = 0.1f`. -/
def relativeThreshold : ℚ := 1 / 10

/-- `voiceStartThreshold = relativeThreshold * 1.2f`. -/
def voiceStartThreshold : ℚ := relativeThreshold * (12 / 10)

/-- `voiceEndThreshold = relativeThreshold * 0.8f`. -/
def voiceEndThreshold : ℚ := relativeThreshold * (8 / 10)

/-- The voice decision: none when the average amplitude is zero, otherwise the
amplitude against the start (outside a segment) or end (inside) threshold times
the amplitude itself. -/
def voicePresent (inVoiceSegment : Bool) (avgAmplitude : ℚ) : Bool :=
  if avgAmplitude = 0 then false
  else if !inVoiceSegment then decide (avgAmplitude > voiceStartThreshold * avgAmplitude)
  else decide (avgAmplitude > voiceEndThreshold * avgAmplitude)

/-- Comparing an amplitude with a fraction `k < 1` of itself only tests its sign. -/
private theorem gt_mul_self_iff {k a : ℚ} (hk1 : k < 1) : k * a < a ↔ 0 < a := by
  constructor
  · intro h
    by_contra hn
    have : k * a ≥ a := by nlinarith
    linarith
  · intro h
    nlinarith

/-- The decision ignores the segment state: a block is voiced iff its average
amplitude is positive. -/
theorem voicePresent_eq (inVoiceSegment : Bool) (avgAmplitude : ℚ) :
    voicePresent inVoiceSegment avgAmplitude = decide (0 < avgAmplitude) := by
  have hs := @gt_mul_self_iff voiceStartThreshold avgAmplitude
    (by norm_num [voiceStartThreshold, relativeThreshold])
  have he := @gt_mul_self_iff voiceEndThreshold avgAmplitude
    (by norm_num [voiceEndThreshold, relativeThreshold])
  unfold voicePresent
  split
  · simp_all
  · cases inVoiceSegment <;> simp [hs, he]

/-- The segmentation state of `WhisperTranscriber`. -/
structure Segmenter where
  inVoiceSegment : Bool
  samplesSinceVoiceStart : Nat
  silentSamplesCount : Nat
  accumulatedByteBuffer : List UInt8
  deriving DecidableEq, Repr

namespace Segmenter

/-- The state at construction: every member at its initialiser. -/
def init : Segmenter := ⟨false, 0, 0, []⟩

/-- "Keep the remainder", shared by both flush paths: `erase` the first `n` bytes
when more remain, `clear` otherwise, and reset `_samplesSinceVoiceStart` to what
is left. -/
def keepRemainder (s : Segmenter) (n : Nat) : Segmenter :=
  if s.accumulatedByteBuffer.length > n then
    { s with accumulatedByteBuffer := s.accumulatedByteBuffer.drop n
             samplesSinceVoiceStart := (s.accumulatedByteBuffer.drop n).length }
  else
    { s with accumulatedByteBuffer := [], samplesSinceVoiceStart := 0 }

/-- A flush of `n` bytes: `_audioBuffer.write(_accumulatedByteBuffer.data(), n)`,
then keep the remainder. -/
def flush (s : Segmenter) (n : Nat) : Segmenter × Option (List UInt8) :=
  (s.keepRemainder n, some (s.accumulatedByteBuffer.take n))

/-- The voice branch of `ProcessAudioBuffer` on the re-encoded block. -/
def onVoice (s : Segmenter) (currentBuffer : List UInt8) : Segmenter × Option (List UInt8) :=
  let s := if s.inVoiceSegment then s else { s with inVoiceSegment := true, samplesSinceVoiceStart := 0 }
  let s := { s with silentSamplesCount := 0
                    accumulatedByteBuffer := s.accumulatedByteBuffer ++ currentBuffer
                    samplesSinceVoiceStart := s.samplesSinceVoiceStart + currentBuffer.length }
  if s.accumulatedByteBuffer.length ≥ kTargetSamples then s.flush kTargetSamples else (s, none)

/-- The end of a voice segment, once the silence is long enough: flush if at
least one second accumulated, and reset the silence count. -/
def endSegment (s : Segmenter) : Segmenter × Option (List UInt8) :=
  let s := { s with inVoiceSegment := false }
  let r :=
    if s.accumulatedByteBuffer.length ≥ kTargetSamples ∨
        s.accumulatedByteBuffer.length ≥ kSampleRate * 2 then
      s.flush (min s.accumulatedByteBuffer.length kTargetSamples)
    else (s, none)
  ({ r.1 with silentSamplesCount := 0 }, r.2)

/-- The no-voice branch of `ProcessAudioBuffer` on the re-encoded block. -/
def onSilence (s : Segmenter) (currentBuffer : List UInt8) : Segmenter × Option (List UInt8) :=
  let s := { s with silentSamplesCount := s.silentSamplesCount + currentBuffer.length }
  if s.inVoiceSegment ∧ s.silentSamplesCount ≥ kSilenceSamples then s.endSegment else (s, none)

/-- `ProcessAudioBuffer` on the segmentation state: the new state and the range
handed to `_audioBuffer.write`, if any. -/
def processAudioBuffer (s : Segmenter) (playoutBuffer : List UInt8) (avgAmplitude : ℚ) :
    Segmenter × Option (List UInt8) :=
  let currentBuffer := pcm16Encode (pcm16Decode playoutBuffer)
  if voicePresent s.inVoiceSegment avgAmplitude then s.onVoice currentBuffer
  else s.onSilence currentBuffer

/-! ### Flushes -/

@[simp] theorem keepRemainder_accumulatedByteBuffer (s : Segmenter) (n : Nat) :
    (s.keepRemainder n).accumulatedByteBuffer = s.accumulatedByteBuffer.drop n := by
  unfold keepRemainder
  split
  · rfl
  · simp only [List.drop_eq_nil_of_le (Nat.le_of_not_gt ‹_›)]

@[simp] theorem keepRemainder_inVoiceSegment (s : Segmenter) (n : Nat) :
    (s.keepRemainder n).inVoiceSegment = s.inVoiceSegment := by
  unfold keepRemainder; split <;> rfl

@[simp] theorem keepRemainder_silentSamplesCount (s : Segmenter) (n : Nat) :
    (s.keepRemainder n).silentSamplesCount = s.silentSamplesCount := by
  unfold keepRemainder; split <;> rfl

@[simp] theorem flush_fst (s : Segmenter) (n : Nat) : (s.flush n).1 = s.keepRemainder n := rfl

@[simp] theorem flush_snd (s : Segmenter) (n : Nat) :
    (s.flush n).2 = some (s.accumulatedByteBuffer.take n) := rfl

/-! ### The two branches -/

section Branches

variable (s : Segmenter) (currentBuffer : List UInt8)

@[simp] theorem onVoice_inVoiceSegment : (s.onVoice currentBuffer).1.inVoiceSegment = true := by
  obtain ⟨v, n, m, acc⟩ := s
  cases v <;> by_cases hk : kTargetSamples ≤ acc.length + currentBuffer.length <;> simp [onVoice, hk]

@[simp] theorem onVoice_silentSamplesCount : (s.onVoice currentBuffer).1.silentSamplesCount = 0 := by
  obtain ⟨v, n, m, acc⟩ := s
  cases v <;> by_cases hk : kTargetSamples ≤ acc.length + currentBuffer.length <;> simp [onVoice, hk]

/-- The voice branch appends the block, then drops `kTargetSamples` bytes once
that many have accumulated. -/
theorem onVoice_accumulatedByteBuffer :
    (s.onVoice currentBuffer).1.accumulatedByteBuffer =
      if kTargetSamples ≤ s.accumulatedByteBuffer.length + currentBuffer.length then
        (s.accumulatedByteBuffer ++ currentBuffer).drop kTargetSamples
      else s.accumulatedByteBuffer ++ currentBuffer := by
  obtain ⟨v, n, m, acc⟩ := s
  cases v <;> by_cases hk : kTargetSamples ≤ acc.length + currentBuffer.length <;> simp [onVoice, hk]

/-- The continuous-speech flush writes the first `kTargetSamples` bytes. -/
theorem onVoice_written :
    (s.onVoice currentBuffer).2 =
      if kTargetSamples ≤ s.accumulatedByteBuffer.length + currentBuffer.length then
        some ((s.accumulatedByteBuffer ++ currentBuffer).take kTargetSamples)
      else none := by
  obtain ⟨v, n, m, acc⟩ := s
  cases v <;> by_cases hk : kTargetSamples ≤ acc.length + currentBuffer.length <;> simp [onVoice, hk]

@[simp] theorem endSegment_inVoiceSegment : s.endSegment.1.inVoiceSegment = false := by
  unfold endSegment; dsimp only; split <;> simp

@[simp] theorem endSegment_silentSamplesCount : s.endSegment.1.silentSamplesCount = 0 := rfl

private theorem endSegment_cond_iff :
    (s.accumulatedByteBuffer.length ≥ kTargetSamples ∨
        s.accumulatedByteBuffer.length ≥ kSampleRate * 2) ↔
      kSampleRate * 2 ≤ s.accumulatedByteBuffer.length := by
  have : kSampleRate * 2 ≤ kTargetSamples := by decide
  omega

/-- The end of speech keeps what lies past the first `kTargetSamples` bytes when
it flushes, and everything otherwise. -/
theorem endSegment_accumulatedByteBuffer :
    s.endSegment.1.accumulatedByteBuffer =
      if kSampleRate * 2 ≤ s.accumulatedByteBuffer.length then
        s.accumulatedByteBuffer.drop kTargetSamples
      else s.accumulatedByteBuffer := by
  unfold endSegment
  dsimp only
  simp only [endSegment_cond_iff]
  split
  · rcases Nat.le_total s.accumulatedByteBuffer.length kTargetSamples with hle | hle
    · simp [Nat.min_eq_left hle, List.drop_of_length_le hle]
    · simp [Nat.min_eq_right hle]
  · rfl

/-- The end-of-speech flush writes `min(size, kTargetSamples)` bytes if at least
one second accumulated. -/
theorem endSegment_written :
    s.endSegment.2 =
      if kSampleRate * 2 ≤ s.accumulatedByteBuffer.length then
        some (s.accumulatedByteBuffer.take (min s.accumulatedByteBuffer.length kTargetSamples))
      else none := by
  unfold endSegment
  dsimp only
  simp only [endSegment_cond_iff]
  split <;> rfl

theorem onSilence_of_end
    (h : s.inVoiceSegment = true ∧ kSilenceSamples ≤ s.silentSamplesCount + currentBuffer.length) :
    s.onSilence currentBuffer =
      { s with silentSamplesCount := s.silentSamplesCount + currentBuffer.length }.endSegment := by
  simp [onSilence, h]

theorem onSilence_of_not_end
    (h : ¬ (s.inVoiceSegment = true ∧ kSilenceSamples ≤ s.silentSamplesCount + currentBuffer.length)) :
    s.onSilence currentBuffer =
      ({ s with silentSamplesCount := s.silentSamplesCount + currentBuffer.length }, none) := by
  simp only [onSilence, ge_iff_le]
  rw [if_neg h]

end Branches

theorem processAudioBuffer_of_voice {s : Segmenter} {playoutBuffer : List UInt8} {avgAmplitude : ℚ}
    (h : voicePresent s.inVoiceSegment avgAmplitude = true) :
    s.processAudioBuffer playoutBuffer avgAmplitude = s.onVoice (pcm16Encode (pcm16Decode playoutBuffer)) := by
  simp [processAudioBuffer, h]

theorem processAudioBuffer_of_not_voice {s : Segmenter} {playoutBuffer : List UInt8} {avgAmplitude : ℚ}
    (h : voicePresent s.inVoiceSegment avgAmplitude = false) :
    s.processAudioBuffer playoutBuffer avgAmplitude =
      s.onSilence (pcm16Encode (pcm16Decode playoutBuffer)) := by
  simp [processAudioBuffer, h]

private theorem take_min_append_drop (acc : List UInt8) (n : Nat) :
    acc.take (min acc.length n) ++ acc.drop n = acc := by
  rcases Nat.le_total acc.length n with h | h
  · simp [Nat.min_eq_left h, List.take_of_length_le (Nat.le_refl _), List.drop_of_length_le h]
  · simp [Nat.min_eq_right h]

/-! ### One call -/

/-- **Bytes of one call**: the range handed to `_audioBuffer.write`, followed by
the new accumulator, is the old accumulator followed by the re-encoded block if
the block was voiced.  Neither flush path drops, duplicates or reorders a byte. -/
theorem processAudioBuffer_bytes (s : Segmenter) (playoutBuffer : List UInt8) (avgAmplitude : ℚ) :
    (s.processAudioBuffer playoutBuffer avgAmplitude).2.toList.flatten ++
        (s.processAudioBuffer playoutBuffer avgAmplitude).1.accumulatedByteBuffer =
      s.accumulatedByteBuffer ++
        if voicePresent s.inVoiceSegment avgAmplitude then pcm16Encode (pcm16Decode playoutBuffer)
        else [] := by
  cases hv : voicePresent s.inVoiceSegment avgAmplitude
  · rw [processAudioBuffer_of_not_voice hv]
    by_cases he : s.inVoiceSegment = true ∧
        kSilenceSamples ≤ s.silentSamplesCount + (pcm16Encode (pcm16Decode playoutBuffer)).length
    · rw [onSilence_of_end _ _ he, endSegment_accumulatedByteBuffer, endSegment_written]
      dsimp only
      split <;> simp [take_min_append_drop]
    · simp [onSilence_of_not_end _ _ he]
  · rw [processAudioBuffer_of_voice hv, onVoice_accumulatedByteBuffer, onVoice_written]
    split <;> simp

/-- Every call keeps the accumulator's length even: blocks are re-encoded as
whole samples and both flush sizes are even. -/
theorem even_processAudioBuffer (s : Segmenter) (playoutBuffer : List UInt8) (avgAmplitude : ℚ)
    (h : Even s.accumulatedByteBuffer.length) :
    Even (s.processAudioBuffer playoutBuffer avgAmplitude).1.accumulatedByteBuffer.length := by
  have hT : kTargetSamples % 2 = 0 := by decide
  have hc : (pcm16Encode (pcm16Decode playoutBuffer)).length % 2 = 0 := by simp
  rw [Nat.even_iff] at h ⊢
  cases hv : voicePresent s.inVoiceSegment avgAmplitude
  · rw [processAudioBuffer_of_not_voice hv]
    generalize pcm16Encode (pcm16Decode playoutBuffer) = cur at hc
    by_cases he : s.inVoiceSegment = true ∧ kSilenceSamples ≤ s.silentSamplesCount + cur.length
    · rw [onSilence_of_end _ _ he, endSegment_accumulatedByteBuffer]
      dsimp only
      split
      · simp only [List.length_drop]; omega
      · exact h
    · simpa [onSilence_of_not_end _ _ he] using h
  · rw [processAudioBuffer_of_voice hv]
    generalize pcm16Encode (pcm16Decode playoutBuffer) = cur at hc
    rw [onVoice_accumulatedByteBuffer]
    split <;> simp only [List.length_drop, List.length_append] <;> omega

/-- Every range a call hands to `_audioBuffer.write` holds between one and
twelve seconds of audio, as an even number of bytes. -/
theorem processAudioBuffer_written (s : Segmenter) (playoutBuffer : List UInt8) (avgAmplitude : ℚ)
    (h : Even s.accumulatedByteBuffer.length) :
    ∀ w ∈ (s.processAudioBuffer playoutBuffer avgAmplitude).2,
      Even w.length ∧ 2 * kSampleRate ≤ w.length ∧ w.length ≤ kTargetSamples := by
  have hT : kTargetSamples % 2 = 0 ∧ 2 * kSampleRate ≤ kTargetSamples := by decide
  rw [Nat.even_iff] at h
  cases hv : voicePresent s.inVoiceSegment avgAmplitude
  · rw [processAudioBuffer_of_not_voice hv]
    generalize pcm16Encode (pcm16Decode playoutBuffer) = cur
    by_cases he : s.inVoiceSegment = true ∧ kSilenceSamples ≤ s.silentSamplesCount + cur.length
    · rw [onSilence_of_end _ _ he, endSegment_written]
      dsimp only
      split
      · rintro w ⟨⟩
        simp only [Nat.even_iff, List.length_take]
        omega
      · rintro w ⟨⟩
    · rw [onSilence_of_not_end _ _ he]
      rintro w ⟨⟩
  · rw [processAudioBuffer_of_voice hv]
    generalize pcm16Encode (pcm16Decode playoutBuffer) = cur
    rw [onVoice_written]
    split
    · rintro w ⟨⟩
      simp only [Nat.even_iff, List.length_take, List.length_append]
      omega
    · rintro w ⟨⟩

/-- The accumulator after a call, branch by branch: the voice branch appends and
drops `kTargetSamples` bytes once that many accumulated; the end of a segment
drops `kTargetSamples` bytes if at least one second accumulated. -/
theorem accumulatedByteBuffer_processAudioBuffer (s : Segmenter) (playoutBuffer : List UInt8)
    (avgAmplitude : ℚ) :
    (s.processAudioBuffer playoutBuffer avgAmplitude).1.accumulatedByteBuffer =
      if voicePresent s.inVoiceSegment avgAmplitude then
        if kTargetSamples ≤ s.accumulatedByteBuffer.length +
            (pcm16Encode (pcm16Decode playoutBuffer)).length then
          (s.accumulatedByteBuffer ++ pcm16Encode (pcm16Decode playoutBuffer)).drop kTargetSamples
        else s.accumulatedByteBuffer ++ pcm16Encode (pcm16Decode playoutBuffer)
      else if s.inVoiceSegment = true ∧ kSilenceSamples ≤
          s.silentSamplesCount + (pcm16Encode (pcm16Decode playoutBuffer)).length then
        if kSampleRate * 2 ≤ s.accumulatedByteBuffer.length then
          s.accumulatedByteBuffer.drop kTargetSamples
        else s.accumulatedByteBuffer
      else s.accumulatedByteBuffer := by
  cases hv : voicePresent s.inVoiceSegment avgAmplitude
  · rw [processAudioBuffer_of_not_voice hv]
    generalize pcm16Encode (pcm16Decode playoutBuffer) = cur
    by_cases he : s.inVoiceSegment = true ∧ kSilenceSamples ≤ s.silentSamplesCount + cur.length
    · simp [onSilence_of_end _ _ he, he, endSegment_accumulatedByteBuffer]
    · simp [onSilence_of_not_end _ _ he, he]
  · simp [processAudioBuffer_of_voice hv, onVoice_accumulatedByteBuffer]

/-- The range a call hands to `_audioBuffer.write`, branch by branch. -/
theorem written_processAudioBuffer (s : Segmenter) (playoutBuffer : List UInt8) (avgAmplitude : ℚ) :
    (s.processAudioBuffer playoutBuffer avgAmplitude).2 =
      if voicePresent s.inVoiceSegment avgAmplitude then
        if kTargetSamples ≤ s.accumulatedByteBuffer.length +
            (pcm16Encode (pcm16Decode playoutBuffer)).length then
          some ((s.accumulatedByteBuffer ++ pcm16Encode (pcm16Decode playoutBuffer)).take kTargetSamples)
        else none
      else if s.inVoiceSegment = true ∧ kSilenceSamples ≤
          s.silentSamplesCount + (pcm16Encode (pcm16Decode playoutBuffer)).length then
        if kSampleRate * 2 ≤ s.accumulatedByteBuffer.length then
          some (s.accumulatedByteBuffer.take (min s.accumulatedByteBuffer.length kTargetSamples))
        else none
      else none := by
  cases hv : voicePresent s.inVoiceSegment avgAmplitude
  · rw [processAudioBuffer_of_not_voice hv]
    generalize pcm16Encode (pcm16Decode playoutBuffer) = cur
    by_cases he : s.inVoiceSegment = true ∧ kSilenceSamples ≤ s.silentSamplesCount + cur.length
    · simp [onSilence_of_end _ _ he, he, endSegment_written]
    · simp [onSilence_of_not_end _ _ he, he]
  · simp [processAudioBuffer_of_voice hv, onVoice_written]

/-- A call closes the segment exactly when it is unvoiced inside a segment and
the silence count, with this block, reaches `kSilenceSamples`; a voiced call
always leaves the segment open. -/
theorem inVoiceSegment_processAudioBuffer (s : Segmenter) (playoutBuffer : List UInt8)
    (avgAmplitude : ℚ) :
    (s.processAudioBuffer playoutBuffer avgAmplitude).1.inVoiceSegment =
      if voicePresent s.inVoiceSegment avgAmplitude then true
      else if s.inVoiceSegment = true ∧ kSilenceSamples ≤
          s.silentSamplesCount + (pcm16Encode (pcm16Decode playoutBuffer)).length then false
      else s.inVoiceSegment := by
  cases hv : voicePresent s.inVoiceSegment avgAmplitude
  · rw [processAudioBuffer_of_not_voice hv]
    generalize pcm16Encode (pcm16Decode playoutBuffer) = cur
    by_cases he : s.inVoiceSegment = true ∧ kSilenceSamples ≤ s.silentSamplesCount + cur.length
    · simp [onSilence_of_end _ _ he, he]
    · simp [onSilence_of_not_end _ _ he, he]
  · simp [processAudioBuffer_of_voice hv]

/-- The silence count is reset by a voiced block and by the end of a segment,
and otherwise grows by the size of the re-encoded block in bytes. -/
theorem silentSamplesCount_processAudioBuffer (s : Segmenter) (playoutBuffer : List UInt8)
    (avgAmplitude : ℚ) :
    (s.processAudioBuffer playoutBuffer avgAmplitude).1.silentSamplesCount =
      if voicePresent s.inVoiceSegment avgAmplitude then 0
      else if s.inVoiceSegment = true ∧ kSilenceSamples ≤
          s.silentSamplesCount + (pcm16Encode (pcm16Decode playoutBuffer)).length then 0
      else s.silentSamplesCount + (pcm16Encode (pcm16Decode playoutBuffer)).length := by
  cases hv : voicePresent s.inVoiceSegment avgAmplitude
  · rw [processAudioBuffer_of_not_voice hv]
    generalize pcm16Encode (pcm16Decode playoutBuffer) = cur
    by_cases he : s.inVoiceSegment = true ∧ kSilenceSamples ≤ s.silentSamplesCount + cur.length
    · simp [onSilence_of_end _ _ he, he]
    · simp [onSilence_of_not_end _ _ he, he]
  · simp [processAudioBuffer_of_voice hv]

/-- With blocks of at most `kTargetSamples` bytes the accumulator stays below
`kTargetSamples`: one continuous-speech flush per call suffices. -/
theorem length_processAudioBuffer_lt (s : Segmenter) (playoutBuffer : List UInt8)
    (avgAmplitude : ℚ) (h : s.accumulatedByteBuffer.length < kTargetSamples)
    (hb : playoutBuffer.length ≤ kTargetSamples) :
    (s.processAudioBuffer playoutBuffer avgAmplitude).1.accumulatedByteBuffer.length <
      kTargetSamples := by
  have hT : kTargetSamples % 2 = 0 := by decide
  have hc : (pcm16Encode (pcm16Decode playoutBuffer)).length ≤ kTargetSamples := by
    simp only [length_pcm16Encode, length_pcm16Decode]; omega
  cases hv : voicePresent s.inVoiceSegment avgAmplitude
  · rw [processAudioBuffer_of_not_voice hv]
    generalize pcm16Encode (pcm16Decode playoutBuffer) = cur at hc
    by_cases he : s.inVoiceSegment = true ∧ kSilenceSamples ≤ s.silentSamplesCount + cur.length
    · rw [onSilence_of_end _ _ he, endSegment_accumulatedByteBuffer]
      dsimp only
      split
      · simp only [List.length_drop]; omega
      · exact h
    · simpa [onSilence_of_not_end _ _ he] using h
  · rw [processAudioBuffer_of_voice hv]
    generalize pcm16Encode (pcm16Decode playoutBuffer) = cur at hc
    rw [onVoice_accumulatedByteBuffer]
    split <;> simp only [List.length_drop, List.length_append] <;> omega

end Segmenter

/-- No thresholds `0 < tContinue < tStart` describe the voice decision: every
positive amplitude, however small, is voiced in both states. -/
theorem voicePresent_no_hysteresis :
    ¬ ∃ tContinue tStart : ℚ, 0 < tContinue ∧ tContinue < tStart ∧
      ∀ (inVoiceSegment : Bool) (avgAmplitude : ℚ), 0 ≤ avgAmplitude →
        (voicePresent inVoiceSegment avgAmplitude = true ↔
          avgAmplitude > if inVoiceSegment then tContinue else tStart) := by
  rintro ⟨tContinue, tStart, h0, h1, h⟩
  have hhalf := h false (tStart / 2) (by linarith)
  simp only [voicePresent_eq, decide_eq_true_eq, Bool.false_eq_true, if_false] at hhalf
  linarith [hhalf.mp (by linarith)]

end WhisperTranscriber
