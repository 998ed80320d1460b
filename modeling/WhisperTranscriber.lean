import WhisperTranscriber.Pcm16
import WhisperTranscriber.Segmenter
import WhisperTranscriber.SegmenterRun
import WhisperTranscriber.RingBuffer
import WhisperTranscriber.Transcribe
import WhisperTranscriber.Cleanup
import WhisperTranscriber.System
import WhisperTranscriber.Overflow
import WhisperTranscriber.Shutdown
import WhisperTranscriber.SingleFlight
import WhisperTranscriber.Dispatch
import WhisperTranscriber.Delivery
import WhisperTranscriber.Pipeline
import WhisperTranscriber.Drain
import WhisperTranscriber.Engine
import WhisperTranscriber.Answers
