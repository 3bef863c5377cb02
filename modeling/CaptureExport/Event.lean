import CaptureExport.Log.Logger

/-! # Events

The vocabulary of the field `event`, which classifies the lines of the log.
-/

namespace CaptureExport

inductive Event where
  | opening
  | closing
  | failure
  | creation
  | exporting
  | queueing
  | memory
  | signal
  | lock
  deriving DecidableEq, Repr

namespace Event

def all : List Event :=
  [opening, closing, failure, creation, exporting, queueing, memory, signal, lock]

def code : Event → String
  | opening => "PCAP_FSNINI"
  | closing => "PCAP_FSNEND"
  | failure => "PCAP_FSNERR"
  | creation => "PCAP_CREATE"
  | exporting => "PCAP_EXPORT"
  | queueing => "PCAP_QUEUED"
  | memory => "PCAP_OSWMEM"
  | signal => "PCAP_SIGNAL"
  | lock => "PCAP_FSLOCK"

def record (event : Event) (level : Log.Level) (origin message : String)
    (fields : List (String × Log.Value)) : Log.Record :=
  ⟨level, origin, message, ("event", .text event.code) :: fields⟩

end Event

inductive TaskEnd where
  | returned
  | panicked (message : String)
  deriving DecidableEq, Repr

def TaskEnd.panicText (message : String) : String :=
  "task # panicked with message " ++ Text.quoted message
end CaptureExport
