import Mathlib.Algebra.Order.Field.Rat
import Mathlib.Algebra.Order.Group.Abs
import Mathlib.Tactic.FinCases
import Mathlib.Tactic.NormNum

/-!
# Constants and PCM16 conversion of `WhisperTranscriber`

The audio constants of `whisper_transcriber.h` and the three byte/sample loops
of `whisper_transcriber.cc`: the little-endian decode shared by
`ProcessAudioBuffer` and the worker task, the re-encode of `ProcessAudioBuffer`,
and the task's normalisation `sample / 32768.0f`.

An `int16_t` is a `BitVec 16`.  The C++ computes the decode in `int` and
truncates to `int16_t`, and the re-encode sign-extends to `int` before masking;
neither changes the low 16 bits, so both are computed on 16 bits here.

* `pcm16Encode_pcm16Decode` — decoding an even-length block and re-encoding it
  gives the block back byte for byte.
* `length_pcm16Encode_pcm16Decode` — the re-encoded block always has even length.
* `decodeReads_lt_iff_even` — the decode loop of `ProcessAudioBuffer` stays
  within the block iff its size is even; an odd size makes it read one byte past
  the end.
* `abs_sampleToFloat_le_one` — every normalised sample lies in `[-1, 1]`.
* `toPcmF32_injective` — the task's conversion to `pcmf32` loses no information
  on even-length blocks.
-/

namespace WhisperTranscriber

/-- `kSampleRate`: 16 kHz. -/
def kSampleRate : Nat := 16000

/-- `kTargetDurationSeconds`: the 3-second unit of the ring-buffer increment. -/
def kTargetDurationSeconds : Nat := 3

/-- `kRingBufferSizeIncrement`: the ring buffer's capacity at construction and
the amount of every growth. -/
def kRingBufferSizeIncrement : Nat := kSampleRate * kTargetDurationSeconds * 2 * 10

/-- `kTargetSamples`: twelve seconds of 16-bit audio, counted in bytes. -/
def kTargetSamples : Nat := kSampleRate * 12 * 2

/-- `kSilenceSamples`, compared in the code against a count of bytes. -/
def kSilenceSamples : Nat := 16000

/-- `(int16_t)(lo) | ((int16_t)(hi) << 8)`: one little-endian sample. -/
def decodeSample (lo hi : UInt8) : BitVec 16 :=
  lo.toBitVec.setWidth 16 ||| (hi.toBitVec.setWidth 16 <<< 8)

/-- `sample & 0xFF` then `(sample >> 8) & 0xFF`, each stored as `uint8_t`. -/
def encodeSample (sample : BitVec 16) : List UInt8 :=
  [⟨(sample &&& 0xFF).setWidth 8⟩, ⟨((sample.sshiftRight 8) &&& 0xFF).setWidth 8⟩]

/-- The decode loop `for (i = 0; i < n; i += 2)` reading `b[i]` and `b[i + 1]`.
For odd `n` its last iteration reads `b[n]`, past the end of the block; the
model reads `0` there. -/
def pcm16Decode : List UInt8 → List (BitVec 16)
  | [] => []
  | [lo] => [decodeSample lo 0]
  | lo :: hi :: rest => decodeSample lo hi :: pcm16Decode rest

/-- The re-encode loop of `ProcessAudioBuffer` into `currentBuffer`. -/
def pcm16Encode : List (BitVec 16) → List UInt8
  | [] => []
  | sample :: rest => encodeSample sample ++ pcm16Encode rest

/-- `sample / 32768.0f`.  Every `int16_t` divided by `2^15` is exact in `float`. -/
def sampleToFloat (sample : BitVec 16) : ℚ := (sample.toInt : ℚ) / 32768

/-- The worker task's conversion of a block into `pcmf32`. -/
def toPcmF32 (block : List UInt8) : List ℚ := (pcm16Decode block).map sampleToFloat

private theorem getLsbD_255 (i : Fin 8) : (255#8).getLsbD i = true := by
  fin_cases i <;> rfl

/-- Re-encoding a decoded sample gives its two bytes back. -/
@[simp] theorem encodeSample_decodeSample (lo hi : UInt8) :
    encodeSample (decodeSample lo hi) = [lo, hi] := by
  obtain ⟨lo⟩ := lo
  obtain ⟨hi⟩ := hi
  simp only [encodeSample, decodeSample, List.cons.injEq, and_true]
  constructor <;> congr 1 <;> ext i
  · simp [getLsbD_255]
  · have : 8 + (i : Nat) < 16 ∧ ¬ 8 + (i : Nat) < 8 ∧ ¬ 16 ≤ (i : Nat) ∧ (i : Nat) < 16 := by
      omega
    simp [BitVec.getLsbD_sshiftRight, getLsbD_255, this]

@[simp] theorem length_encodeSample (sample : BitVec 16) : (encodeSample sample).length = 2 := rfl

@[simp] theorem pcm16Encode_append (xs ys : List (BitVec 16)) :
    pcm16Encode (xs ++ ys) = pcm16Encode xs ++ pcm16Encode ys := by
  induction xs with
  | nil => rfl
  | cons x xs ih => simp [pcm16Encode, ih]

@[simp] theorem length_pcm16Encode (samples : List (BitVec 16)) :
    (pcm16Encode samples).length = 2 * samples.length := by
  induction samples with
  | nil => rfl
  | cons x xs ih => simp [pcm16Encode, ih]; omega

/-- The decode loop produces one sample per started pair of bytes. -/
@[simp] theorem length_pcm16Decode (block : List UInt8) :
    (pcm16Decode block).length = (block.length + 1) / 2 := by
  induction block using pcm16Decode.induct with
  | case1 => rfl
  | case2 lo => simp [pcm16Decode]
  | case3 lo hi rest ih => simp [pcm16Decode, ih]; omega

/-- **Byte-exact round trip**: decoding an even-length block to `int16_t` and
re-encoding it reproduces the block. -/
theorem pcm16Encode_pcm16Decode {block : List UInt8} (h : Even block.length) :
    pcm16Encode (pcm16Decode block) = block := by
  induction block using pcm16Decode.induct with
  | case1 => rfl
  | case2 lo => simp at h
  | case3 lo hi rest ih =>
      have hrest : Even rest.length := by
        simpa [Nat.even_add_one, parity_simps] using h
      simp [pcm16Decode, pcm16Encode, ih hrest]

/-- The re-encoded block has even length, whatever the length of the input. -/
theorem length_pcm16Encode_pcm16Decode (block : List UInt8) :
    (pcm16Encode (pcm16Decode block)).length = 2 * ((block.length + 1) / 2) := by
  simp

/-! ### The indices the decode loop reads -/

/-- The indices the decode loop of `ProcessAudioBuffer` reads from the counter `i`
on: `playoutBuffer[i]` and `playoutBuffer[i + 1]`, for `i` stepping by two while
`i < kPlayoutBufferSize`. -/
def decodeReads (kPlayoutBufferSize i : Nat) : List Nat :=
  if i < kPlayoutBufferSize then i :: (i + 1) :: decodeReads kPlayoutBufferSize (i + 2) else []
termination_by kPlayoutBufferSize - i

/-- From `i` on, the loop reads consecutive indices, two per started pair. -/
theorem decodeReads_eq_range' (kPlayoutBufferSize i : Nat) :
    decodeReads kPlayoutBufferSize i =
      List.range' i (2 * ((kPlayoutBufferSize - i + 1) / 2)) := by
  induction i using decodeReads.induct kPlayoutBufferSize with
  | case1 i hi ih =>
      rw [decodeReads, if_pos hi, ih, show 2 * ((kPlayoutBufferSize - i + 1) / 2) =
        2 * ((kPlayoutBufferSize - (i + 2) + 1) / 2) + 1 + 1 by omega, List.range'_succ,
        List.range'_succ]
  | case2 i hi =>
      rw [decodeReads, if_neg hi, show (kPlayoutBufferSize - i + 1) / 2 = 0 by omega]
      rfl

/-- The loop reads two indices for each sample of `pcm16Decode`. -/
theorem length_decodeReads (block : List UInt8) :
    (decodeReads block.length 0).length = 2 * (pcm16Decode block).length := by
  simp [decodeReads_eq_range']

/-- **The read past the end.**  The decode loop reads only indices below
`kPlayoutBufferSize` iff it is even; for an odd size its last iteration reads
`playoutBuffer[kPlayoutBufferSize]`, one past the end, and never further. -/
theorem decodeReads_lt_iff_even (kPlayoutBufferSize : Nat) :
    ((∀ j ∈ decodeReads kPlayoutBufferSize 0, j < kPlayoutBufferSize) ↔
        Even kPlayoutBufferSize) ∧
      ∀ j ∈ decodeReads kPlayoutBufferSize 0, j ≤ kPlayoutBufferSize := by
  simp only [decodeReads_eq_range', List.mem_range'_1, Nat.even_iff]
  refine ⟨⟨fun h => ?_, fun h j hj => by omega⟩, fun j hj => by omega⟩
  by_contra hodd
  have := h kPlayoutBufferSize ⟨Nat.zero_le _, by omega⟩
  omega

/-- Every normalised sample lies in `[-1, 1]`. -/
theorem abs_sampleToFloat_le_one (sample : BitVec 16) : |sampleToFloat sample| ≤ 1 := by
  have hlt := sample.isLt
  have hint : -32768 ≤ sample.toInt ∧ sample.toInt ≤ 32767 := by
    rw [BitVec.toInt_eq_toNat_cond]
    split <;> omega
  rw [sampleToFloat, abs_le]
  constructor
  · rw [le_div_iff₀ (by norm_num)]
    exact_mod_cast (by omega : (-1 : Int) * 32768 ≤ sample.toInt)
  · rw [div_le_iff₀ (by norm_num)]
    exact_mod_cast (by omega : sample.toInt ≤ (1 : Int) * 32768)

/-- `sample / 32768.0f` keeps distinct samples apart. -/
theorem sampleToFloat_injective : Function.Injective sampleToFloat := by
  intro a b h
  rw [sampleToFloat, sampleToFloat, div_left_inj' (by norm_num), Int.cast_inj] at h
  exact BitVec.toInt_inj.mp h

/-- **The worker task's conversion loses nothing**: two even-length blocks with
the same `pcmf32` samples are the same bytes, so the engine receives exactly
the audio of the block. -/
theorem toPcmF32_injective {block₁ block₂ : List UInt8} (h₁ : Even block₁.length)
    (h₂ : Even block₂.length) (h : toPcmF32 block₁ = toPcmF32 block₂) : block₁ = block₂ := by
  rw [← pcm16Encode_pcm16Decode h₁, ← pcm16Encode_pcm16Decode h₂,
    List.map_injective_iff.mpr sampleToFloat_injective h]

theorem toPcmF32_injective_one_sample :
    Even [0x34, 0x12].length ∧ Even [0x34, 0x12].length ∧
      toPcmF32 [0x34, 0x12] = toPcmF32 [0x34, 0x12] ∧ ([0x34, 0x12] : List UInt8) = [0x34, 0x12] :=
  ⟨by decide, by decide, rfl, toPcmF32_injective (by decide) (by decide) rfl⟩

@[simp] theorem length_toPcmF32 (block : List UInt8) :
    (toPcmF32 block).length = (block.length + 1) / 2 := by
  simp [toPcmF32]

end WhisperTranscriber
