import Qutty.Tmux.OutputDecoding

/-!
# The buffer of the output handler

The loop of `cmd_hdlr_output` with its buffer of 128 characters.  The memory that it may
read is the line up to its end; a read elsewhere, a store behind the buffer and a loop
that does not end are faults.

An escape that is cut short ends at the newline, which is no digit and no carriage
return, so the index never passes it (`readEscapeIn_eq`).  So there is no fault, and the
pieces for `from_backend` are the decoded data cut after every 128 bytes
(`outputLoop_eq`, `flush_push_eq_toChunks`).
-/

namespace Qutty
namespace Tmux

open Lib Pane

section Loop

/-- What can go wrong in the loop. -/
inductive OutputFault where
  | read
  | store
  | endless
deriving DecidableEq

/-- `bytes[i]`. -/
def readAt (bytes : List UInt8) (i : Nat) : Except OutputFault UInt8 :=
  match bytes[i]? with
  | some b => .ok b
  | none => .error .read

/-- The digits of an escape; `i` is the index of the last character read. -/
def readEscapeIn (bytes : List UInt8) : Nat → Nat → UInt8 → Except OutputFault (UInt8 × Nat)
  | 0, i, c => .ok (c, i)
  | j + 1, i, c => do
      let b ← readAt bytes (i + 1)
      if b = 13 then readEscapeIn bytes j (i + 1) c
      else if b < 48 ∨ 55 < b then .ok (63, i)
      else readEscapeIn bytes j (i + 1) (c * 8 + (b - 48))

/-- `data[0..datalen)`, and what has been passed to `from_backend`. -/
structure OutputBuffer where
  data : List UInt8
  pieces : List (List UInt8)

/-- What is left of a character after `data[datalen++] = c` and the test for a full
buffer. -/
def OutputBuffer.push (buf : OutputBuffer) (c : UInt8) : OutputBuffer :=
  if (buf.data ++ [c]).length = outputBufferSize then ⟨[], buf.pieces ++ [buf.data ++ [c]]⟩
  else ⟨buf.data ++ [c], buf.pieces⟩

/-- The same with the bound of the buffer. -/
def OutputBuffer.store (buf : OutputBuffer) (c : UInt8) : Except OutputFault OutputBuffer :=
  if buf.data.length < outputBufferSize then .ok (buf.push c) else .error .store

/-- The call behind the loop. -/
def OutputBuffer.flush (buf : OutputBuffer) : List (List UInt8) :=
  if buf.data.length > 0 then buf.pieces ++ [buf.data] else buf.pieces

/-- The loop of `cmd_hdlr_output`, for a number of rounds. -/
def outputLoop (bytes : List UInt8) (byteslen : Int) :
    Nat → Nat → OutputBuffer → Except OutputFault OutputBuffer
  | 0, _, _ => .error .endless
  | rounds + 1, i, buf =>
      if (i : Int) < byteslen then do
        let b ← readAt bytes i
        if isControl b then outputLoop bytes byteslen rounds (i + 1) buf
        else do
          let (c, i) ← if b = 92 then readEscapeIn bytes 3 i b else .ok (b, i)
          let buf ← buf.store c
          outputLoop bytes byteslen rounds (i + 1) buf
      else .ok buf

/-- The pieces of a line whose data begin at `start`. -/
def outputPieces (line : List UInt8) (start rounds : Nat) :
    Except OutputFault (List (List UInt8)) :=
  (outputLoop (line.drop start) ((line.length : Int) - start - 1) rounds 0 ⟨[], []⟩).map
    OutputBuffer.flush

end Loop

section Buffer

/-- The buffer has room. -/
def OutputBuffer.Room (buf : OutputBuffer) : Prop := buf.data.length < outputBufferSize

/-- There is room after each character. -/
theorem OutputBuffer.Room.push {buf : OutputBuffer} (h : buf.Room) (c : UInt8) :
    (buf.push c).Room := by
  have hlen : (buf.data ++ [c]).length = buf.data.length + 1 := by simp
  rw [Room] at h
  unfold OutputBuffer.push
  split_ifs with hfull
  · exact Nat.zero_lt_succ 127
  · rw [Room, hlen]
    rw [hlen] at hfull
    omega

theorem OutputBuffer.Room.store {buf : OutputBuffer} (h : buf.Room) (c : UInt8) :
    buf.store c = .ok (buf.push c) :=
  if_pos h

/-- What the buffer holds and what has been passed on. -/
theorem flatten_flush_push (buf : OutputBuffer) (c : UInt8) :
    (buf.push c).flush.flatten = buf.flush.flatten ++ [c] := by
  have hflat : ∀ b : OutputBuffer, b.flush.flatten = b.pieces.flatten ++ b.data := by
    intro b
    unfold OutputBuffer.flush
    split_ifs with h
    · simp
    · have hnil : b.data = [] := List.length_eq_zero_iff.mp (by omega)
      simp [hnil]
  rw [hflat, hflat]
  unfold OutputBuffer.push
  split_ifs <;> simp

/-- **The pieces are the data.** -/
theorem flatten_flush (data : List UInt8) (buf : OutputBuffer) :
    (data.foldl OutputBuffer.push buf).flush.flatten = buf.flush.flatten ++ data := by
  induction data generalizing buf with
  | nil => simp
  | cons c data ih => rw [List.foldl_cons, ih, flatten_flush_push, List.append_assoc,
      List.singleton_append]

/-- The pieces that have been passed on are not empty and fit into the buffer. -/
def OutputBuffer.Sized (buf : OutputBuffer) : Prop :=
  ∀ piece ∈ buf.pieces, piece ≠ [] ∧ piece.length ≤ outputBufferSize

theorem OutputBuffer.Sized.push {buf : OutputBuffer} (h : buf.Sized) (c : UInt8) :
    (buf.push c).Sized := by
  unfold OutputBuffer.push
  split_ifs with hfull
  · intro piece hpiece
    rcases List.mem_append.mp hpiece with hpiece | hpiece
    · exact h piece hpiece
    · rw [List.mem_singleton.mp hpiece]
      exact ⟨by simp, hfull.le⟩
  · exact h

theorem OutputBuffer.Sized.flush {buf : OutputBuffer} (h : buf.Sized) (hroom : buf.Room) :
    ∀ piece ∈ buf.flush, piece ≠ [] ∧ piece.length ≤ outputBufferSize := by
  unfold OutputBuffer.flush
  split_ifs with hdata
  · intro piece hpiece
    rcases List.mem_append.mp hpiece with hpiece | hpiece
    · exact h piece hpiece
    · rw [List.mem_singleton.mp hpiece]
      exact ⟨List.ne_nil_of_length_pos hdata, hroom.le⟩
  · exact h

theorem sized_foldl (data : List UInt8) {buf : OutputBuffer} (h : buf.Sized) (hroom : buf.Room) :
    (data.foldl OutputBuffer.push buf).Sized ∧ (data.foldl OutputBuffer.push buf).Room := by
  induction data generalizing buf with
  | nil => exact ⟨h, hroom⟩
  | cons c data ih => exact ih (h.push c) (hroom.push c)

/-- A buffer in the middle of `List.toChunks`, which passes on a full buffer only when
another character comes. -/
theorem toChunks_go_eq (data : List UInt8) (acc : Array UInt8) (accs : Array (List UInt8))
    (hpos : 0 < acc.size) (hle : acc.size ≤ outputBufferSize) :
    List.toChunks.go outputBufferSize data acc accs =
      (data.foldl OutputBuffer.push
        (if acc.size = outputBufferSize then ⟨[], accs.toList ++ [acc.toList]⟩
          else ⟨acc.toList, accs.toList⟩)).flush := by
  induction data generalizing acc accs with
  | nil =>
      rw [List.toChunks.go, List.foldl_nil]
      split_ifs
      · simp [OutputBuffer.flush]
      · simp [OutputBuffer.flush, hpos]
  | cons c data ih =>
      have hone : ¬ (1 = outputBufferSize) := by decide
      rw [List.toChunks.go, List.foldl_cons]
      by_cases hfull : acc.size = outputBufferSize
      · rw [if_pos (by simpa using hfull), ih _ _ (by simp) (by simp [outputBufferSize]),
          if_pos hfull]
        simp [OutputBuffer.push, hone]
      · rw [if_neg (by simpa using hfull), ih _ _ (by simp) (by simp; omega), if_neg hfull]
        by_cases hnext : acc.size + 1 = outputBufferSize
        · simp [OutputBuffer.push, hnext]
        · simp [OutputBuffer.push, hnext]

/-- **The buffer cuts the data as `List.toChunks` does.** -/
theorem flush_push_eq_toChunks (data : List UInt8) :
    (data.foldl OutputBuffer.push ⟨[], []⟩).flush = data.toChunks outputBufferSize := by
  cases data with
  | nil => simp [OutputBuffer.flush, List.toChunks]
  | cons c data =>
      have hone : ¬ (1 = outputBufferSize) := by decide
      have hgo := toChunks_go_eq data #[c] #[] (by simp) (by simp [outputBufferSize])
      rw [outputBufferSize] at hgo ⊢
      rw [List.toChunks, hgo]
      · simp [OutputBuffer.push, outputBufferSize]
      · simp

end Buffer

section Bounds

variable (zs : List UInt8)

/-- The characters of a payload and the newline behind it can be read. -/
theorem readAt_payload {i : Nat} (hi : i ≤ zs.length) :
    readAt (zs ++ [10]) i = .ok ((zs ++ [10]).getD i 0) := by
  have hlt : i < (zs ++ [10]).length := by simp; omega
  rw [readAt, List.getElem?_eq_getElem hlt, List.getD_eq_getElem?_getD,
    List.getElem?_eq_getElem hlt, Option.getD_some]

/-- **An escape is read inside the line**: it stops at the newline. -/
theorem readEscapeIn_eq (j i : Nat) (c : UInt8) (hi : i < zs.length) :
    readEscapeIn (zs ++ [10]) j i c = .ok (readEscape (zs ++ [10]) j i c) := by
  induction j generalizing i c with
  | zero => rfl
  | succ j ih =>
      rw [readEscapeIn, readAt_payload zs (by omega), readEscape]
      show (if (zs ++ [10]).getD (i + 1) 0 = 13 then _ else _) = _
      by_cases hend : i + 1 < zs.length
      · simp only [ih (i + 1) _ hend]
        split_ifs <;> rfl
      · have heq : i + 1 = zs.length := by omega
        have hget : (zs ++ [10]).getD (i + 1) 0 = 10 := by
          rw [List.getD_eq_getElem?_getD, List.getElem?_append_right (by omega), heq]
          simp
        rw [hget]
        rfl

/-- The index does not go back in front of the escape. -/
theorem le_readEscape (bytes : List UInt8) (j i : Nat) (c : UInt8) :
    i ≤ (readEscape bytes j i c).2 := by
  induction j generalizing i c with
  | zero => exact le_rfl
  | succ j ih =>
      have hnext := ih (i + 1)
      rw [readEscape]
      split_ifs
      · exact (Nat.le_succ i).trans (hnext c)
      · exact le_rfl
      · exact (Nat.le_succ i).trans (hnext _)

/-- **The loop ends without a fault**, and the decoded data have gone through the
buffer. -/
theorem outputLoop_eq (rounds i : Nat) (buf : OutputBuffer) (hroom : buf.Room)
    (hi : i ≤ zs.length) (hrounds : zs.length < i + rounds) :
    outputLoop (zs ++ [10]) zs.length rounds i buf =
      .ok ((decode (zs.drop i)).foldl OutputBuffer.push buf) := by
  induction rounds generalizing i buf with
  | zero => exact absurd hrounds (by omega)
  | succ rounds ih =>
      by_cases hlt : i < zs.length
      · have hget : (zs ++ [10]).getD i 0 = zs[i] := by
          rw [List.getD_eq_getElem?_getD, List.getElem?_append_left hlt,
            List.getElem?_eq_getElem hlt, Option.getD_some]
        rw [outputLoop, if_pos (by omega), readAt_payload zs hi, hget,
          List.drop_eq_getElem_cons hlt]
        show (if isControl zs[i] then _ else _) = _
        by_cases hcontrol : isControl zs[i] = true
        · rw [if_pos hcontrol, ih (i + 1) buf hroom hlt (by omega), decode_control hcontrol]
        · rw [if_neg hcontrol]
          by_cases hescape : zs[i] = 92
          · -- the index behind the escape is still inside the payload
            obtain ⟨hvalue, hrest, hinside⟩ := readEscape_eq zs [] 3 i zs[i] hlt
            have hle := le_readEscape (zs ++ [10]) 3 i zs[i]
            rw [if_pos hescape, readEscapeIn_eq zs 3 i _ hlt]
            show (buf.store (readEscape (zs ++ [10]) 3 i zs[i]).1 >>= fun buf =>
              outputLoop (zs ++ [10]) zs.length rounds
                ((readEscape (zs ++ [10]) 3 i zs[i]).2 + 1) buf) = _
            rw [hroom.store]
            show outputLoop (zs ++ [10]) zs.length rounds
              ((readEscape (zs ++ [10]) 3 i zs[i]).2 + 1) (buf.push _) = _
            rw [ih _ _ (hroom.push _) hinside (by omega), hrest, hvalue, hescape, decode_escape,
              List.foldl_cons]
          · rw [if_neg hescape]
            show (buf.store zs[i] >>= fun buf =>
              outputLoop (zs ++ [10]) zs.length rounds (i + 1) buf) = _
            rw [hroom.store]
            show outputLoop (zs ++ [10]) zs.length rounds (i + 1) (buf.push zs[i]) = _
            rw [ih _ _ (hroom.push _) hlt (by omega),
              decode_plain (by simpa using hcontrol) hescape, List.foldl_cons]
      · have hdrop : zs.drop i = [] := List.drop_eq_nil_of_le (by omega)
        rw [outputLoop, if_neg (by omega), hdrop]
        rfl

end Bounds

section Lines

variable {line following bytes : List UInt8} {paneid : Int}

/-- Where the data of a line begin, whose pane id ends inside the line. -/
theorem drop_start (hend : line.getLast? = some 10) (hbytes : bytes <:+ line ++ following)
    (hinside : following.length < bytes.length) :
    let start := (line ++ following).length - bytes.length + 1
    (start = line.length ∧ line.drop start = []) ∨
      ∃ zs, line.drop start = zs ++ [10] ∧ line.length = start + zs.length + 1 := by
  intro start
  have hle := hbytes.length_le
  have hstart : start ≤ line.length := by
    simp only [start, List.length_append]
    rw [List.length_append] at hle
    omega
  rcases Nat.lt_or_ge start line.length with hlt | hge
  · have hne : line.drop start ≠ [] := by
      intro h
      have hlen := congrArg List.length h
      rw [List.length_drop, List.length_nil] at hlen
      omega
    have hlast : (line.drop start).getLast? = some 10 := by
      rw [List.getLast?_drop, if_neg (by omega), hend]
    obtain ⟨zs, hzs⟩ := List.getLast?_eq_some_iff.mp hlast
    refine .inr ⟨zs, hzs, ?_⟩
    have hlen := congrArg List.length hzs
    rw [List.length_drop, List.length_append, List.length_singleton] at hlen
    omega
  · have heq : start = line.length := by omega
    exact .inl ⟨heq, by rw [heq, List.drop_length]⟩

/-- The data of the handler, which may read behind the line. -/
theorem decodeOutput_line (hend : line.getLast? = some 10) (hbytes : bytes <:+ line ++ following)
    (hinside : following.length < bytes.length) :
    let start := (line ++ following).length - bytes.length + 1
    decodeOutput ((line ++ following).drop start) (line.length - start - 1) =
      decode (line.drop start).dropLast := by
  intro start
  rcases drop_start hend hbytes hinside with ⟨hstart, hdrop⟩ | ⟨zs, hdrop, hlen⟩
  · have hzero : line.length - start - 1 = 0 := by omega
    rw [hdrop, hzero]
    rfl
  · have hmem : (line ++ following).drop start = zs ++ 10 :: following := by
      rw [List.drop_append_of_le_length (by omega), hdrop, List.append_assoc,
        List.singleton_append]
    have hcount : line.length - start - 1 = zs.length := by omega
    rw [hmem, hcount, hdrop, List.dropLast_concat]
    exact payloadData_eq_decode zs following

/-- The pieces of a line are its data, cut by the buffer. -/
theorem outputPieces_eq (hend : line.getLast? = some 10) (hbytes : bytes <:+ line ++ following)
    (hinside : following.length < bytes.length) {rounds : Nat} (hpos : 0 < rounds) :
    let start := (line ++ following).length - bytes.length + 1
    line.length ≤ start + rounds → outputPieces line start rounds =
      .ok ((decode (line.drop start).dropLast).toChunks outputBufferSize) := by
  intro start hrounds
  rcases drop_start hend hbytes hinside with ⟨hstart, hdrop⟩ | ⟨zs, hdrop, hlen⟩
  · obtain ⟨rounds, rfl⟩ := Nat.exists_eq_succ_of_ne_zero hpos.ne'
    rw [outputPieces, outputLoop, if_neg (by omega), hdrop, ← flush_push_eq_toChunks]
    rfl
  · have hcount : (line.length : Int) - start - 1 = zs.length := by omega
    have hloop := outputLoop_eq zs rounds 0 ⟨[], []⟩ (Nat.zero_lt_succ 127) (Nat.zero_le _)
      (by omega)
    rw [outputPieces, hcount, hdrop, hloop, List.dropLast_concat, List.drop_zero,
      ← flush_push_eq_toChunks]
    rfl

/-- **The decoding loop ends, reads the line only, stores in the buffer only, and passes on
the decoded data in pieces that are not empty.** -/
theorem outputPieces_spec (hend : line.getLast? = some 10)
    (hdigits : strtol ((line ++ following).drop 9) = some (paneid, bytes))
    (hinside : following.length < bytes.length) :
    let start := (line ++ following).length - bytes.length + 1
    ∃ pieces, (∀ rounds > 0, line.length ≤ start + rounds →
        outputPieces line start rounds = .ok pieces) ∧
      pieces.flatten = decode (line.drop start).dropLast ∧
      (∀ piece ∈ pieces, piece ≠ [] ∧ piece.length ≤ outputBufferSize) ∧
      ∀ (c : Client) (p : Nat), c.following = following →
        ((line ++ following).drop 8).head? = some (TmuxLayout.octetOf '%') →
        c.mapPanes.find paneid = some p → ((c.usePane p).pane p).ready = true →
        cmdHdlrOutput line c =
          pieces.foldl (fun c piece => c.fromBackend (c.pane p).termWnd .output piece)
            (c.usePane p) := by
  intro start
  obtain ⟨before, hsplit⟩ := strtol_suffix hdigits
  have hbytes : bytes <:+ line ++ following :=
    (List.suffix_append before bytes).trans (hsplit ▸ List.drop_suffix 9 (line ++ following))
  have hsized : OutputBuffer.Sized ⟨[], []⟩ := fun piece hpiece => absurd hpiece (by simp)
  obtain ⟨hflush, hroom⟩ := sized_foldl (decode (line.drop start).dropLast) hsized
    (Nat.zero_lt_succ 127)
  refine ⟨(decode (line.drop start).dropLast).toChunks outputBufferSize,
    fun rounds hpos hrounds => outputPieces_eq hend hbytes hinside hpos hrounds,
    flatten_toChunks _ _, ?_, ?_⟩
  · rw [← flush_push_eq_toChunks]
    exact hflush.flush hroom
  · intro c p hfollowing hpercent hfind hready
    have hdata := decodeOutput_line hend hbytes hinside
    rw [cmdHdlrOutput]
    simp only [hfollowing, hpercent, ne_eq, not_true_eq_false, if_false, List.drop_drop,
      hdigits, hfind, hready, Bool.true_eq_false]
    exact congrArg (fun data : List UInt8 => (data.toChunks outputBufferSize).foldl _ _) hdata

/-- `%output %1 a\101`. -/
def lettersLine : List UInt8 :=
  [37, 111, 117, 116, 112, 117, 116, 32, 37, 49, 32, 97, 92, 49, 48, 49, 10]

theorem outputPieces_letters :
    ∃ pieces, (∀ rounds > 0, lettersLine.length ≤ 11 + rounds →
        outputPieces lettersLine 11 rounds = .ok pieces) ∧ pieces.flatten = [97, 65] := by
  have hdigits : strtol ((lettersLine ++ []).drop 9) =
      some (1, [32, 97, 92, 49, 48, 49, 10]) := by decide
  obtain ⟨pieces, hpieces, hflat, -, -⟩ := outputPieces_spec (by decide) hdigits (by decide)
  exact ⟨pieces, hpieces, hflat.trans (by decide)⟩

end Lines

end Tmux
end Qutty
