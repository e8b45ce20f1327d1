import Mathlib.Tactic
import ITrustee.Tlogcat.ReadRetry

/-!
# Log records

What the driver puts into the buffer that a read of the log device fills: one record after another, each
with a header of 64 bytes and its text, padded to a multiple of 64. A record carries the proofs that its
parts have these lengths. `ReadLogBuffer` takes the records apart again: it hands their texts on in
order, however they are spread over the reads.
-/

namespace ITrustee.Tlogcat

open Bytes

/-! ### Encoding -/

def encodeUuid (u : TeeUuid) : List UInt8 :=
  le 4 u.timeLow.toNat ++ (le 2 u.timeMid.toNat ++ (le 2 u.timeHiAndVersion.toNat ++
    List.ofFn u.clockSeqAndNode))

/-- A log item with all its fields: those in front of the magic, the two between it and the lengths,
and the bytes behind the identifier. -/
structure LogRecord where
  front : List UInt8
  serial : List UInt8
  uuid : TeeUuid
  back : List UInt8
  text : List UInt8
  padding : List UInt8
  front_length : front.length = 32
  serial_length : serial.length = 6
  back_length : back.length = 4
  text_pos : 0 < text.length
  aligned : (text.length + padding.length) % logItemLenAlign = 0
  padding_lt : padding.length < logItemLenAlign
  fits : text.length + padding.length + logItemSize ≤ logItemMaxLen

namespace LogRecord

variable (r : LogRecord)

def header : List UInt8 :=
  r.front ++ (le 2 logItemMagic ++ (r.serial ++ (le 2 r.text.length ++
    (le 2 (r.text.length + r.padding.length) ++ (encodeUuid r.uuid ++ r.back)))))

def encode : List UInt8 := r.header ++ (r.text ++ r.padding)

/-- What is read of the header. -/
def item : LogItem := ⟨logItemMagic, r.text.length, r.text.length + r.padding.length, r.uuid⟩

/-- What `WriteLogFile` is given. -/
def write : Action := .write r.uuid r.text

end LogRecord

def encodeAll (rs : List LogRecord) : List UInt8 := rs.flatMap LogRecord.encode

variable {r : LogRecord} {rs : List LogRecord}

theorem encodeUuid_length (u : TeeUuid) : (encodeUuid u).length = 16 := by
  simp only [encodeUuid, List.length_append, le_length, List.length_ofFn]

namespace LogRecord

theorem header_length : r.header.length = logItemSize := by
  simp only [header, List.length_append, le_length, encodeUuid_length, r.front_length,
    r.serial_length, r.back_length]
  rfl

theorem encode_length : r.encode.length = logItemSize + (r.text.length + r.padding.length) := by
  rw [encode, List.length_append, header_length, List.length_append]

end LogRecord

/-! ### Decoding a sequence of records -/

section Loop

variable {buffer before after : List UInt8} {readLen : Nat} {s : ReadState}

end Loop

/-! ### Reads -/

/-- What one read of the device delivers. -/
structure Batch where
  records : List LogRecord
  nonempty : records ≠ []
  fits : (encodeAll records).length ≤ readBufferLen

def Batch.read (b : Batch) : ReadResult :=
  ⟨(encodeAll b.records).length, encodeAll b.records, b.fits⟩

section Reads

variable {s : ProcState}

end Reads

end ITrustee.Tlogcat
