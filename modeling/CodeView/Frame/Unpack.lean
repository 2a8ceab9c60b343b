import CodeView.Frame.Block
import CodeView.Frame.Checksum
import CodeView.Frame.Header

/-!
# Unpacking files

A compressed file is a row of frames, and its content is what they unpack to, one after the other.
`unpack` gives as much of the content as comes out before something is wrong, and what is wrong.

The content is asked for byte by byte, and unpacking goes on as soon as a byte can be given away. So
a block of a single byte comes out together with the start of what follows, and is lost if that
fails. A frame that is known to hold no more than one byte is unpacked at once.
-/

namespace CodeView.Frame

/-- What has come out of a file: stretches of bytes, last first. If the last one is `fresh`, it is a
single byte with which unpacking has not stopped yet. -/
structure Outflow where
  stretches : List (List UInt8)
  fresh : Bool

namespace Outflow

/-- Nothing yet. -/
def empty : Outflow := ⟨[], false⟩

/-- One more stretch. -/
def add (o : Outflow) (bytes : List UInt8) : Outflow :=
  if bytes.isEmpty then o else ⟨bytes :: o.stretches, !o.fresh && bytes.length == 1⟩

/-- Unpacking has stopped well. -/
def settle (o : Outflow) : Outflow :=
  { o with fresh := false }

/-- Unpacking has failed. -/
def fail (o : Outflow) : Outflow :=
  if o.fresh then ⟨o.stretches.drop 1, false⟩ else o

/-- The bytes that came out. -/
def bytes (o : Outflow) : List UInt8 :=
  o.stretches.reverse.flatten

end Outflow

/-- What has come out of a file, and the bytes after the frame or what is wrong with it. -/
abbrev Step := Outflow × Except Fault (List UInt8)

/-- Stops for a fault. A file that just ends is no failure of what came before. -/
def stop (out : Outflow) (fault : Fault) : Step :=
  (if fault = .incomplete then out.settle else out.fail, .error fault)

/-- Ends a frame after its last block: the check on its content has to be right. -/
def Header.finish (h : Header) (content : Array UInt8) (out : Outflow) (bytes : List UInt8) :
    Step :=
  if h.hasChecksum then
    if bytes.length < 4 then stop out .incomplete
    else if littleEndian (bytes.take 4) ≠ checksum content.toList then stop out .checksumWrong
    else (out.settle, .ok (bytes.drop 4))
  else (out.settle, .ok bytes)

/-- The content that a block has added. -/
def Progress.since (p earlier : Progress) : List UInt8 :=
  (p.content.extract earlier.content.size p.content.size).toList

/-- Where the next block is unpacked to in the memory of a frame, after bytes up to `position`. If
the memory is smaller than the content, it is used over again. -/
def Header.nextPosition (h : Header) (position : Nat) : Nat :=
  if h.contentSize.all (h.memory < ·) && h.memory < position + h.maxBlock then 0 else position

/-- What a block of a frame unpacks to. It must not hold more than a block may, and the last one has
to complete the content. -/
def Header.unpackBlock (h : Header) (b : BlockHeader) (isWhole : Bool) (position : Nat)
    (p : Progress) (bytes : List UInt8) : Except Fault Progress := do
  let next ← b.unpack ⟨h.maxBlock, h.memory - position⟩ p bytes
  if h.maxBlock < next.content.size - p.content.size then throw .corrupt
  if isWhole ∧ b.isLast ∧ h.contentSize.any (· ≠ next.content.size) then throw .corrupt
  return next

/-- Unpacks the blocks of a frame. Of a plain block that breaks off, what is there comes out. -/
def Header.unpackBlocks (h : Header) (position : Nat) (p : Progress) (out : Outflow) :
    List UInt8 → Step
  | x :: y :: z :: bytes =>
    match blockHeader x y z with
    | .error fault => stop out fault
    | .ok b =>
      if h.maxBlock < b.stored then stop out .corrupt
      else if b.stored = 0 then
        if b.isLast then h.finish p.content out bytes else h.unpackBlocks position p out bytes
      else if bytes.length < b.stored ∧ (bytes.isEmpty ∨ b.kind ≠ .plain) then stop out .incomplete
      else
        match h.unpackBlock b (b.stored ≤ bytes.length) position p (bytes.take b.stored) with
        | .error fault => stop out fault
        | .ok next =>
          let out := out.add (next.since p)
          if bytes.length < b.stored then stop out .incomplete
          else if b.isLast then h.finish next.content out (bytes.drop b.stored)
          else
            h.unpackBlocks (h.nextPosition (position + (next.since p).length)) next out
              (bytes.drop b.stored)
  | _ => stop out .incomplete
termination_by bytes => bytes.length
decreasing_by all_goals simp only [List.length_drop, List.length_cons]; omega

/-- Unpacks the blocks of a frame of at most one byte at once, and gives the content and the bytes
after the last block. -/
def Header.unpackAtOnce (h : Header) (p : Progress) :
    List UInt8 → Except Fault (Progress × List UInt8)
  | x :: y :: z :: bytes => do
    let b ← blockHeader x y z
    if bytes.length < b.stored then throw .sizeWrong
    if b.kind = .compressed ∧ h.maxBlock < b.stored then throw .sizeWrong
    let p ← b.unpack ⟨h.maxBlock, 1 - p.content.size⟩ p (bytes.take b.stored)
    if b.isLast then return (p, bytes.drop b.stored)
    h.unpackAtOnce p (bytes.drop b.stored)
  | _ => throw .sizeWrong
termination_by bytes => bytes.length
decreasing_by simp only [List.length_drop, List.length_cons]; omega

/-- Whether all blocks of a frame are there. -/
def Header.isComplete (h : Header) : List UInt8 → Bool
  | x :: y :: z :: bytes =>
    match blockHeader x y z with
    | .error _ => false
    | .ok b =>
      if bytes.length < b.stored then false
      else if b.isLast then !h.hasChecksum || 4 ≤ (bytes.drop b.stored).length
      else h.isComplete (bytes.drop b.stored)
  | _ => false
termination_by bytes => bytes.length
decreasing_by simp only [List.length_drop, List.length_cons]; omega

/-- Unpacks a frame after its header. -/
def Header.unpack (h : Header) (out : Outflow) (bytes : List UInt8) : Step :=
  if h.dictionary ≠ 0 then stop out .dictionaryMismatch
  else if h.contentSize.any (· ≤ 1) && h.isComplete bytes then
    match h.unpackAtOnce .start bytes with
    | .error fault => stop out fault
    | .ok (p, rest) =>
      if h.contentSize ≠ some p.content.size then stop out .corrupt
      else
        match h.finish p.content .empty rest with
        | (_, .error fault) => stop out fault
        | (_, .ok rest) => ((out.add p.content.toList).settle, .ok rest)
  else if maxWindow < h.windowSize then stop out .windowTooLarge
  else h.unpackBlocks 0 .start out bytes

/-- Unpacks the frames of a file one after the other. The file may end after a frame, but not before
the first. -/
def unpackFrames : (fuel : Nat) → (isFirst : Bool) → Outflow → List UInt8 → Outflow × Option Fault
  | 0, _, out, _ => (out, some .incomplete)
  | fuel + 1, isFirst, out, bytes =>
    if bytes.isEmpty && !isFirst then (out, none)
    else
      match readStart bytes with
      | .error fault => (out, some fault)
      | .ok (.skipped length rest) =>
        if rest.length < length then (out, some .incomplete)
        else unpackFrames fuel false out (rest.drop length)
      | .ok (.frame h rest) =>
        match h.unpack out rest with
        | (out, .error fault) => (out, some fault)
        | (out, .ok rest) => unpackFrames fuel false out rest

/-- As much of the content of a compressed file as comes out, and what is wrong after that. Every
frame has at least one byte, so there are no more frames than bytes. -/
def unpack (bytes : List UInt8) : List UInt8 × Option Fault :=
  let (out, fault) := unpackFrames (bytes.length + 1) true .empty bytes
  (out.bytes, fault)

end CodeView.Frame
