import Qutty.Lib.RunLength
import Qutty.Terminal.LineCells

/-!
# Compressed lines

`puttysrc/terminal/terminal.c`: a line in the scrollback is kept as a string of bytes: the
number of columns, the attributes of the line, and four sequences of literals, packed by run
length: the characters, their attributes, their colours and their combining characters.

Shifts by a constant are multiplications and divisions here, and bits that do not overlap are
added.  An assertion that fails ends the program (`none`).
-/

namespace Qutty
namespace Terminal

open Lib Lib.Chains Lib.RunLength

section Sources

/-- `BinarySource`: what has not been read, and whether too much has been asked for. -/
structure BinarySource where
  rest : List UInt8
  err : Bool
deriving DecidableEq, Repr

namespace BinarySource

/-- `get_byte` -/
def getByte (bs : BinarySource) : UInt8 × BinarySource :=
  match bs.err, bs.rest with
  | false, b :: rest => (b, ⟨rest, false⟩)
  | _, _ => (0, { bs with err := true })

/-- `get_uint16` -/
def getUint16 (bs : BinarySource) : Nat × BinarySource :=
  match bs.err, bs.rest with
  | false, b₁ :: b₀ :: rest => (b₁.toNat * 0x100 + b₀.toNat, ⟨rest, false⟩)
  | _, _ => (0, { bs with err := true })

/-- `get_uint32` -/
def getUint32 (bs : BinarySource) : Nat × BinarySource :=
  match bs.err, bs.rest with
  | false, b₃ :: b₂ :: b₁ :: b₀ :: rest =>
      (b₃.toNat * 0x1000000 + b₂.toNat * 0x10000 + b₁.toNat * 0x100 + b₀.toNat, ⟨rest, false⟩)
  | _, _ => (0, { bs with err := true })

end BinarySource

/-- `put_uint16` -/
def putUint16 (n : Nat) : List UInt8 := [UInt8.ofNat (n / 0x100), UInt8.ofNat n]

/-- `put_uint32` -/
def putUint32 (n : Nat) : List UInt8 :=
  [UInt8.ofNat (n / 0x1000000), UInt8.ofNat (n / 0x10000), UInt8.ofNat (n / 0x100), UInt8.ofNat n]

end Sources

section Packing

variable {α : Type}

/-- Part of a buffer. -/
def slice (b : List UInt8) (pos len : Nat) : List UInt8 := (b.drop pos).take len

/-- `memmove` within a buffer. -/
def moveBytes (b : List UInt8) (dest src len : Nat) : List UInt8 :=
  b.take dest ++ slice b src len ++ b.drop (dest + len)

/-- The variables of `makerle`. -/
structure Rle where
  b : List UInt8
  hdrpos : Nat
  hdrsize : Nat
  prevlen : Nat
  prevpos : Nat
  prev2 : Bool
  state : UInt32
deriving DecidableEq, Repr

variable (makeliteral : α → UInt32 → List UInt8 × UInt32)

/-- The literals that belong to a run as well. -/
def extendRun (b : List UInt8) (runpos thislen : Nat) :
    List α → UInt32 → Nat → List α × UInt32 × Nat
  | [], state, runlen => ([], state, runlen)
  | c :: cs, state, runlen =>
      if runlen < 129 then
        let made := makeliteral c state
        if made.1.length = thislen ∧ slice b (runpos + 1) made.1.length = made.1 then
          extendRun b runpos thislen cs made.2 (runlen + 1)
        else (c :: cs, state, runlen)
      else (c :: cs, state, runlen)

/-- A literal that is not part of a run. -/
def Rle.count (s : Rle) : Rle :=
  let hdrsize := s.hdrsize + 1
  if hdrsize = 128 then
    { s with
      b := s.b.set s.hdrpos (UInt8.ofNat (hdrsize - 1)) ++ [0]
      hdrpos := s.b.length
      hdrsize := 0
      prevlen := 0
      prevpos := 0
      prev2 := false }
  else { s with hdrsize := hdrsize }

/-- A run begins: the buffer up to the first literal of the run, and its position. -/
def Rle.startRun (s : Rle) : Option (List UInt8 × Nat) :=
  if s.prev2 = true ∧ s.hdrsize ≤ 1 then none
  else
    let hdrsize := if s.prev2 then s.hdrsize - 2 else s.hdrsize - 1
    let prevpos := if s.prev2 then s.prevpos - s.prevlen else s.prevpos
    if hdrsize = 0 then
      if prevpos = s.hdrpos + 1 then some (s.b.take (prevpos + s.prevlen), s.hdrpos) else none
    else if hdrsize ≤ 128 then
      let moved := (moveBytes s.b (prevpos + 1) prevpos s.prevlen).take (prevpos + s.prevlen + 1)
      some (moved.set s.hdrpos (UInt8.ofNat (hdrsize - 1)), prevpos)
    else none

/-- A round of the loop of `makerle`, for a cell and those that follow. -/
def makerleRound (c : α) (cs : List α) (s : Rle) : Option (List α × Rle) :=
  let thispos := s.b.length
  let made := makeliteral c s.state
  let thislen := made.1.length
  let s := { s with b := s.b ++ made.1, state := made.2 }
  if thislen = s.prevlen ∧ slice s.b s.prevpos thislen = slice s.b thispos thislen then
    if thislen > 1 || s.prev2 then
      s.startRun.bind fun (b, runpos) =>
        let run := extendRun makeliteral b runpos thislen cs s.state (if s.prev2 then 3 else 2)
        if run.2.2 ≤ 129 then
          some (run.1,
            { b := b.set runpos (UInt8.ofNat (run.2.2 + 0x80 - 2)) ++ [0]
              hdrpos := b.length
              hdrsize := 0
              prevlen := 0
              prevpos := 0
              prev2 := false
              state := run.2.1 })
        else none
    else some (cs, { s with prev2 := true, prevlen := thislen, prevpos := thispos }.count)
  else some (cs, { s with prev2 := false, prevlen := thislen, prevpos := thispos }.count)

/-- The loop of `makerle`.  Every round takes a cell at least. -/
def makerleLoop : Nat → List α → Rle → Option Rle
  | fuel + 1, c :: cs, s =>
      (makerleRound makeliteral c cs s).bind fun (cs, s) => makerleLoop fuel cs s
  | _, _, s => some s

/-- `makerle`. -/
def makerle (b : List UInt8) (cs : List α) : Option (List UInt8) :=
  (makerleLoop makeliteral cs.length cs ⟨b ++ [0], b.length, 0, 0, 0, false, 0⟩).bind fun s =>
    if s.hdrsize > 0 then
      if s.hdrsize ≤ 128 then some (s.b.set s.hdrpos (UInt8.ofNat (s.hdrsize - 1))) else none
    else some (s.b.take s.hdrpos)

end Packing

section Literals

/-- `makeliteral_chr`. -/
def literalChr (chr state : UInt32) : List UInt8 × UInt32 :=
  let n := chr.toNat
  (if chr &&& ~~~0x7F = state then [UInt8.ofNat (n % 0x80)]
    else if n < 0x4000 then [UInt8.ofNat (0x80 + n / 0x100 % 0x40), UInt8.ofNat n]
    else if n < 0x200000 then UInt8.ofNat (0xC0 + n / 0x10000 % 0x20) :: putUint16 n
    else if n < 0x10000000 then
      UInt8.ofNat (0xE0 + n / 0x1000000 % 0x10) :: UInt8.ofNat (n / 0x10000) :: putUint16 n
    else 0xF0 :: putUint32 n,
    chr &&& ~~~0xFF)

/-- The attributes of a cell, with the upper bits of the colours moved to the top. -/
def permute (attr : UInt32) : UInt32 :=
  let colourbits := (((attr >>> 13) &&& 0xF) <<< 4) ||| ((attr >>> 4) &&& 0xF)
  let attr := ((attr >>> 17) <<< 13) ||| (attr &&& 0x1FFF)
  let attr := ((attr >>> 8) <<< 4) ||| (attr &&& 0xF)
  attr ||| (colourbits <<< 23)

/-- `makeliteral_attr`. -/
def literalAttr (attr state : UInt32) : List UInt8 × UInt32 :=
  let n := (permute attr).toNat
  (if n < 0x8000 then [UInt8.ofNat (n / 0x100), UInt8.ofNat n]
    else [UInt8.ofNat (0x80 + n / 0x1000000 % 0x80), UInt8.ofNat (n / 0x10000),
      UInt8.ofNat (n / 0x100), UInt8.ofNat n],
    state)

/-- One of the colours of `makeliteral_truecolour`. -/
def putRgb (c : OptionalRgb) : List UInt8 := if c.enabled then [c.r, c.g, c.b] else []

/-- `makeliteral_truecolour`. -/
def literalTruecolour (c : Truecolour) (state : UInt32) : List UInt8 × UInt32 :=
  (((if c.fg.enabled then 1 else 0) + (if c.bg.enabled then 2 else 0)) ::
    (putRgb c.fg ++ putRgb c.bg), state)

/-- `makeliteral_cc`, for the combining characters of a cell. -/
def literalCc (ccs : List UInt32) (state : UInt32) : List UInt8 × UInt32 :=
  (ccs.flatMap (fun chr => (literalChr chr 0).1) ++ (literalChr 0 0).1, state)

open BinarySource in
/-- What `readliteral_chr` reads. -/
def readChr (bs : BinarySource) (state : UInt32) : Option (UInt32 × BinarySource) :=
  let (byte, bs) := bs.getByte
  let n := byte.toNat
  if n < 0x80 then some (UInt32.ofNat n ||| state, bs)
  else if n < 0xC0 then
    let (b, bs) := bs.getByte
    some (UInt32.ofNat (n % 0x40 * 0x100 + b.toNat), bs)
  else if n < 0xE0 then
    let (m, bs) := bs.getUint16
    some (UInt32.ofNat (n % 0x20 * 0x10000 + m), bs)
  else if n < 0xF0 then
    let (b, bs) := bs.getByte
    let (m, bs) := bs.getUint16
    some (UInt32.ofNat (n % 0x10 * 0x1000000 + b.toNat * 0x10000 + m), bs)
  else if n = 0xF0 then
    let (m, bs) := bs.getUint32
    some (UInt32.ofNat m, bs)
  else none

/-- The attributes as they were. -/
def unpermute (val : UInt32) : UInt32 :=
  let colourbits := (val >>> 23) &&& 0xFF
  let attr := val &&& 0x7FFFFF
  let attr := ((attr >>> 4) <<< 8) ||| (attr &&& 0xF)
  let attr := ((attr >>> 13) <<< 17) ||| (attr &&& 0x1FFF)
  attr ||| ((colourbits >>> 4) <<< 13) ||| ((colourbits &&& 0xF) <<< 4)

/-- What `readliteral_attr` reads. -/
def readAttr (bs : BinarySource) : UInt32 × BinarySource :=
  let (val, bs) := bs.getUint16
  if val ≥ 0x8000 then
    let (low, bs) := bs.getUint16
    (unpermute (UInt32.ofNat (val % 0x8000 * 0x10000 + low)), bs)
  else (unpermute (UInt32.ofNat val), bs)

/-- One of the colours of `readliteral_truecolour`. -/
def readRgb (enabled : Bool) (bs : BinarySource) : OptionalRgb × BinarySource :=
  if enabled then
    let (r, bs) := bs.getByte
    let (g, bs) := bs.getByte
    let (b, bs) := bs.getByte
    (⟨true, r, g, b⟩, bs)
  else (optionalrgbNone, bs)

/-- What `readliteral_truecolour` reads. -/
def readTruecolour (bs : BinarySource) : Truecolour × BinarySource :=
  let (flags, bs) := bs.getByte
  let (fg, bs) := readRgb (flags &&& 1 ≠ 0) bs
  let (bg, bs) := readRgb (flags &&& 2 ≠ 0) bs
  (⟨fg, bg⟩, bs)

/-- What a function that reads literals is given and changes: the source, the line, the column
and the state. -/
structure Reader where
  bs : BinarySource
  ldata : Termline
  n : Nat
  state : UInt32

/-- `readliteral_chr`. -/
def readliteralChr (r : Reader) : Option Reader :=
  match readChr r.bs r.state with
  | none => none
  | some (chr, bs) =>
      some { r with bs := bs, ldata := r.ldata.setChr r.n chr, state := chr &&& ~~~0xFF }

/-- `readliteral_attr`. -/
def readliteralAttr (r : Reader) : Option Reader :=
  let (attr, bs) := readAttr r.bs
  some { r with bs := bs, ldata := r.ldata.setCell r.n { r.ldata.chars r.n with attr := attr } }

/-- `readliteral_truecolour`. -/
def readliteralTruecolour (r : Reader) : Option Reader :=
  let (truecolour, bs) := readTruecolour r.bs
  some { r with
    bs := bs
    ldata := r.ldata.setCell r.n { r.ldata.chars r.n with truecolour := truecolour } }

/-- The loop of `readliteral_cc`.  Every round reads a byte, or finds that there is none and
takes it for the end. -/
def readCcs : Nat → Reader → Option Reader
  | 0, _ => none
  | fuel + 1, r =>
      match readChr r.bs 0 with
      | none => none
      | some (chr, bs) =>
          if chr = 0 then some { r with bs := bs }
          else readCcs fuel { r with bs := bs, ldata := r.ldata.addCc r.n chr }

/-- `readliteral_cc`. -/
def readliteralCc (r : Reader) : Option Reader :=
  readCcs (r.bs.rest.length + 1) { r with ldata := r.ldata.setCcNext r.n 0 }

end Literals

section Unpacking

variable (readliteral : Reader → Option Reader)

/-- A literal for the next column. -/
def readNext (r : Reader) : Option Reader :=
  if r.n < r.ldata.cols then (readliteral r).map (fun r => { r with n := r.n + 1 }) else none

/-- Some literals. -/
def readLiterals : Nat → Reader → Option Reader
  | 0, r => some r
  | count + 1, r => (readNext readliteral r).bind (readLiterals count)

/-- A literal that is read again and again. -/
def readRun (pos : List UInt8) : Nat → Reader → Option Reader
  | 0, r => some r
  | count + 1, r =>
      (readNext readliteral { r with bs := { r.bs with rest := pos } }).bind (readRun pos count)

/-- The loop of `readrle`.  Every round reads a literal at least. -/
def readBlocks : Nat → Reader → Option Reader
  | 0, r => if r.n < r.ldata.cols then none else some r
  | fuel + 1, r =>
      if r.n < r.ldata.cols then
        let (hdr, bs) := r.bs.getByte
        let r := { r with bs := bs }
        (if hdr.toNat ≥ 0x80 then readRun readliteral bs.rest (hdr.toNat + 2 - 0x80) r
          else readLiterals readliteral (hdr.toNat + 1) r).bind (readBlocks fuel)
      else some r

/-- `readrle`. -/
def readrle (bs : BinarySource) (ldata : Termline) : Option (BinarySource × Termline) :=
  (readBlocks readliteral ldata.cols ⟨bs, ldata, 0, 0⟩).bind fun r =>
    if r.n = r.ldata.cols then some (r.bs, r.ldata) else none

end Unpacking

section Numbers

/-- A number, seven bits at a time. -/
def putNumber (n : Nat) : List UInt8 :=
  if n ≥ 128 then UInt8.ofNat (n % 0x80 + 0x80) :: putNumber (n / 0x80) else [UInt8.ofNat n]
termination_by n
decreasing_by omega

/-- The loop that reads such a number.  At the end of the data it finds a zero. -/
def getNumber : List UInt8 → Nat × BinarySource
  | [] => (0, ⟨[], true⟩)
  | b :: rest =>
      if b.toNat ≥ 0x80 then
        let (n, bs) := getNumber rest
        (b.toNat % 0x80 + 0x80 * n, bs)
      else (b.toNat, ⟨rest, false⟩)

end Numbers

section Lines

/-- `compressline_no_free`. -/
def compressline (ldata : Termline) : Option (List UInt8) :=
  let columns := List.range ldata.cols
  let b := putNumber ldata.cols ++
    putNumber (ldata.lattr.toNat + if ldata.trusted then 0x10000 else 0)
  (makerle (fun i => literalChr (ldata.chars i).chr) b columns).bind fun b =>
    (makerle (fun i => literalAttr (ldata.chars i).attr) b columns).bind fun b =>
      (makerle (fun i => literalTruecolour (ldata.chars i).truecolour) b columns).bind fun b =>
        -- the zero is what ends the combining characters of a cell
        if columns.any fun i => (ldata.ccList i).contains 0 then none
        else makerle (fun i => literalCc (ldata.ccList i)) b columns

/-- `decompressline_no_free`; `heap` is what is in the memory. -/
def decompressline (heap : Nat → Termchar) (line : List UInt8) : Option Termline :=
  let (ncols, bs) := getNumber line
  let (lattr, bs) := if bs.err then (0, bs) else getNumber bs.rest
  let ldata : Termline :=
    { lattr := UInt16.ofNat lattr
      cols := ncols
      size := ncols
      temporary := true
      ccFree := 0
      chars := fun i => if i < ncols then { heap i with ccNext := 0 } else heap i
      trusted := lattr / 0x10000 % 2 = 1 }
  (readrle readliteralChr bs ldata).bind fun (bs, ldata) =>
    (readrle readliteralAttr bs ldata).bind fun (bs, ldata) =>
      (readrle readliteralTruecolour bs ldata).bind fun (bs, ldata) =>
        (readrle readliteralCc bs ldata).bind fun (bs, ldata) =>
          if bs.err = false ∧ bs.rest = [] then some ldata else none

end Lines

end Terminal
end Qutty
