import Qutty.Bufchain
import Qutty.Lib.Records

/-!
# Line framing in the tmux gateway

`TmuxGateway::fromBackend` of `tmux/TmuxGateway.cpp` receives the control-mode
stream in chunks and hands it to `parseCommand` line by line.  One call has
three paths with their own length arithmetic:

* no newline in the chunk: the chunk goes to the bufchain `buffer`;
* the first line of the chunk is joined with the bytes kept in `buffer`;
* the further lines of the chunk are handed over in place, and the bytes after
  the last newline go to `buffer`.

The call first copies the whole chunk to the terminal of the gateway window
(`term_data`).  A line for which `parseCommand` returns -1 ends the call at the
label `tmux_disconnected` with the number of bytes that follow the line.

Both callees are parameters here (`GatewayHooks`), in an arbitrary lawful
monad.  `fromBackend_eq` says what one call does in terms of the records of the
stream; `fromBackends_framing` says what any sequence of calls does.

Lengths are naturals: the casts to `int` of the source are the identity on
chunks and lines of less than 2 GiB.
-/

namespace Qutty
namespace Tmux

open Lib

section Definitions

variable {α : Type} [Octet α] {m : Type → Type} [Monad m]

/-- The octet that ends a line. -/
def isNewline (b : α) : Bool :=
  octet b == 10

/-- The callees of `TmuxGateway::fromBackend`. -/
structure GatewayHooks (m : Type → Type) (α : Type) where
  termData : List α → m Unit
  parseCommand : List α → m Int

/-- What a call leaves behind: the value returned, whether it was left through
`tmux_disconnected`, and the bufchain `buffer`. -/
structure FromBackendReturn (α : Type) where
  rc : Nat
  disconnected : Bool
  buffer : Bufchain α

/-- The search for the first newline: its index plus one, or zero. -/
def findRespLen : List α → Nat → Nat
  | [], _ => 0
  | b :: bs, i => if isNewline b then i + 1 else findRespLen bs (i + 1)

/-- How the loop over the rest of the chunk ends. -/
inductive ScanExit where
  | pending (respLen : Nat)
  | disconnected (remLen : Nat)

/-- The loop over the rest of the chunk, `remLen` bytes at `buf`; `i` runs up to
`remLen` and the current line begins at `respLen`. -/
def scanRest (parse : List α → m Int) (buf : List α) (remLen : Nat) :
    Nat → Nat → Nat → m ScanExit
  | 0, _, respLen => pure (.pending respLen)
  | n + 1, i, respLen =>
      if (buf[i]?).any isNewline then do
        let rc ← parse ((buf.drop respLen).take (i - respLen + 1))
        if rc = -1 then pure (.disconnected (remLen - (i + 1)))
        else scanRest parse buf remLen n (i + 1) (i + 1)
      else scanRest parse buf remLen n (i + 1) respLen

/-- The part of `fromBackend` after the first line of the chunk. -/
def parseRest (h : GatewayHooks m α) (buffer : Bufchain α) (buf : List α) :
    m (FromBackendReturn α) := do
  match ← scanRest h.parseCommand buf buf.length buf.length 0 0 with
  | .disconnected remLen => pure ⟨remLen, true, buffer⟩
  | .pending respLen =>
      if respLen < buf.length then
        pure ⟨0, false, buffer.add (buf.drop respLen)⟩
      else pure ⟨0, false, buffer⟩

/-- `TmuxGateway::fromBackend`. -/
def fromBackend (h : GatewayHooks m α) (buffer : Bufchain α) (data : List α) :
    m (FromBackendReturn α) := do
  h.termData data
  let respLen := findRespLen data 0
  if respLen = 0 then
    -- complete response not received
    pure ⟨data.length, false, buffer.add data⟩
  else
    let remLen := data.length - respLen
    if 0 < buffer.size then do
      let bufLen := buffer.size
      let line := buffer.fetch bufLen ++ data.take respLen
      let buffer := buffer.consume bufLen
      let rc ← h.parseCommand line
      if rc = -1 then pure ⟨remLen, true, buffer⟩
      else parseRest h buffer (data.drop respLen)
    else do
      let rc ← h.parseCommand (data.take respLen)
      if rc = -1 then pure ⟨remLen, true, buffer⟩
      else parseRest h buffer (data.drop respLen)

/-- Successive calls; the caller makes none after one that disconnected. -/
def fromBackends (h : GatewayHooks m α) :
    List (List α) → Bufchain α → m (Bool × Bufchain α)
  | [], buffer => pure (true, buffer)
  | data :: rest, buffer => do
      let r ← fromBackend h buffer data
      if r.disconnected then pure (false, r.buffer)
      else fromBackends h rest r.buffer

/-- A line is accepted unless `parseCommand` returns -1. -/
def accepts (h : GatewayHooks m α) (line : List α) : m Bool := do
  let rc ← h.parseCommand line
  pure (decide (rc ≠ -1))

/-- The bufchain after its bytes were joined with the first line of a chunk. -/
def drained (buffer : Bufchain α) : Bufchain α :=
  if 0 < buffer.size then buffer.consume buffer.size else buffer

/-- The bufchain after a call in which every line was accepted. -/
def nextBuffer (buffer : Bufchain α) (data : List α) : Bufchain α :=
  if findRespLen data 0 = 0 then buffer.add data
  else
    let rest := residue isNewline data
    if rest.isEmpty then drained buffer else (drained buffer).add rest

/-- The value returned by a call in which every line was accepted. -/
def acceptedReturn (data : List α) : Nat :=
  if findRespLen data 0 = 0 then data.length else 0

end Definitions

section OneCall

variable {α : Type} [Octet α]

/-- Either the chunk has no newline, or it splits at the first one. -/
theorem findRespLen_cases (data : List α) (i : Nat) :
    (findRespLen data i = 0 ∧ ∀ b ∈ data, isNewline b = false) ∨
      ∃ xs b ys, data = xs ++ b :: ys ∧ (∀ c ∈ xs, isNewline c = false) ∧
        isNewline b = true ∧ findRespLen data i = i + xs.length + 1 := by
  induction data generalizing i with
  | nil => exact Or.inl ⟨rfl, by simp⟩
  | cons b data ih =>
      by_cases hb : isNewline b
      · refine Or.inr ⟨[], b, data, rfl, by simp, hb, ?_⟩
        simp [findRespLen, hb]
      · have hb' : isNewline b = false := by simpa using hb
        rcases ih (i + 1) with ⟨h0, hall⟩ | ⟨xs, c, ys, rfl, hxs, hc, hlen⟩
        · refine Or.inl ⟨by simp [findRespLen, hb', h0], ?_⟩
          intro c hc
          rcases List.mem_cons.mp hc with rfl | hc
          · exact hb'
          · exact hall c hc
        · refine Or.inr ⟨b :: xs, c, ys, rfl, ?_, hc, ?_⟩
          · intro d hd
            rcases List.mem_cons.mp hd with rfl | hd
            · exact hb'
            · exact hxs d hd
          · simp only [findRespLen, hb', Bool.false_eq_true, if_false, hlen,
              List.length_cons]
            omega

omit [Octet α] in
theorem content_drained (buffer : Bufchain α) : (drained buffer).content = [] := by
  unfold drained
  split_ifs with h
  · exact buffer.content_consume_size
  · exact buffer.content_eq_nil h

/-- When every line is accepted, `buffer` keeps the bytes after the last newline. -/
theorem content_nextBuffer (buffer : Bufchain α) (data : List α) :
    (nextBuffer buffer data).content = residueFrom isNewline buffer.content data := by
  unfold nextBuffer
  rcases findRespLen_cases data 0 with ⟨h0, hall⟩ | ⟨xs, b, ys, rfl, hxs, hb, hlen⟩
  · rw [if_pos h0, Bufchain.content_add, residueFrom_of_none _ _ _ hall]
  · have hne : findRespLen (xs ++ b :: ys) 0 ≠ 0 := by omega
    have hres : residue isNewline (xs ++ b :: ys) =
        residueFrom isNewline buffer.content (xs ++ b :: ys) := by
      unfold residue
      rw [residueFrom_line _ _ _ _ _ hxs hb, residueFrom_line _ _ _ _ _ hxs hb]
    rw [if_neg hne, ← hres]
    dsimp only
    split_ifs with hempty
    · rw [content_drained]
      exact (List.isEmpty_iff.mp hempty).symm
    · rw [Bufchain.content_add, content_drained, List.nil_append]

/-- How the loop ends, from the lines that were not handed over and the bytes
after the last newline. -/
def scanExitOf (total : Nat) (rest : List α) : Option (List (List α)) → ScanExit
  | none => .pending (total - rest.length)
  | some lines => .disconnected (lines.flatten.length + rest.length)

variable {m : Type → Type} [Monad m] [LawfulMonad m]

/-- The loop hands over the records of what is still to be read.  `done` is
behind `respLen`, `pend` between `respLen` and `i`. -/
theorem scanRest_eq (h : GatewayHooks m α) (done pend todo : List α) :
    scanRest h.parseCommand (done ++ pend ++ todo) (done ++ pend ++ todo).length
        todo.length (done.length + pend.length) done.length =
      scanExitOf (done ++ pend ++ todo).length (residueFrom isNewline pend todo) <$>
        feedUntil (accepts h) (recordsFrom isNewline pend todo) := by
  induction todo generalizing done pend with
  | nil =>
      simp [scanRest, scanExitOf]
  | cons b todo ih =>
      have hget : ((done ++ pend ++ b :: todo)[done.length + pend.length]?) = some b := by
        rw [List.getElem?_append_right (by simp)]
        simp
      by_cases hb : isNewline b
      · have hline : ((done ++ pend ++ b :: todo).drop done.length).take
            (done.length + pend.length - done.length + 1) = pend ++ [b] := by
          rw [List.append_assoc, List.drop_left, Nat.add_sub_cancel_left]
          simp [List.take_append]
        have hrem : (done ++ pend ++ b :: todo).length - (done.length + pend.length + 1) =
            (recordsFrom isNewline [] todo).flatten.length +
              (residueFrom isNewline [] todo).length := by
          have hlen := congrArg List.length
            (flatten_recordsFrom_append isNewline [] todo)
          simp only [List.length_append, List.length_cons, List.nil_append] at hlen ⊢
          omega
        have ih' := ih (done ++ pend ++ [b]) []
        simp only [List.append_assoc, List.append_nil, List.length_append,
          List.length_nil, List.length_cons, List.cons_append, List.nil_append,
          Nat.add_zero, Nat.zero_add] at ih'
        simp only [List.length_cons, scanRest, hget, Option.any_some, hb, if_true, hline,
          recordsFrom, residueFrom, feedUntil_cons, accepts, bind_assoc, pure_bind,
          map_bind]
        refine bind_congr fun rc => ?_
        by_cases hrc : rc = -1
        · simp only [hrc, if_true, scanExitOf, ne_eq, not_true_eq_false, decide_false,
            Bool.false_eq_true, if_false, map_pure]
          rw [hrem]
        · simp only [hrc, if_false, ne_eq, not_false_eq_true, decide_true, if_true]
          simpa [Nat.add_assoc] using ih'
      · have hb' : isNewline b = false := by simpa using hb
        have ih' := ih done (pend ++ [b])
        simp only [List.append_assoc, List.cons_append, List.nil_append,
          List.length_append, List.length_cons, List.length_nil] at ih'
        simp only [List.length_cons, scanRest, hget, Option.any_some, hb',
          Bool.false_eq_true, if_false, recordsFrom, residueFrom]
        simpa [Nat.add_assoc] using ih'

/-- What a call leaves behind, from the lines that were not handed over. -/
def returnOf (buffer : Bufchain α) (data : List α) :
    Option (List (List α)) → FromBackendReturn α
  | none => ⟨acceptedReturn data, false, nextBuffer buffer data⟩
  | some lines =>
      ⟨lines.flatten.length + (residue isNewline data).length, true, drained buffer⟩

/-- The part after the first line hands over the remaining records. -/
theorem parseRest_eq (h : GatewayHooks m α) (buffer : Bufchain α) (buf : List α) :
    parseRest h buffer buf =
      (fun r => match r with
        | none =>
            if (residue isNewline buf).isEmpty then ⟨0, false, buffer⟩
            else ⟨0, false, buffer.add (residue isNewline buf)⟩
        | some lines =>
            ⟨lines.flatten.length + (residue isNewline buf).length, true, buffer⟩) <$>
        feedUntil (accepts h) (records isNewline buf) := by
  have hscan := scanRest_eq h [] [] buf
  simp only [List.append_nil, List.nil_append, List.length_nil, Nat.add_zero] at hscan
  change _ = scanExitOf buf.length (residue isNewline buf) <$>
    feedUntil (accepts h) (records isNewline buf) at hscan
  have hcut := records_append_residue isNewline buf
  have hlen := congrArg List.length hcut
  rw [List.length_append] at hlen
  have hdrop : buf.drop (buf.length - (residue isNewline buf).length) =
      residue isNewline buf := by
    have hfront : buf.length - (residue isNewline buf).length =
        (records isNewline buf).flatten.length := by omega
    rw [hfront]
    exact (congrArg (List.drop _) hcut.symm).trans List.drop_left
  unfold parseRest
  rw [hscan, ← bind_pure_comp, ← bind_pure_comp, bind_assoc]
  refine bind_congr fun r => ?_
  rw [pure_bind]
  cases r with
  | some lines => simp [scanExitOf, residue]
  | none =>
      simp only [scanExitOf, hdrop]
      by_cases hres : residue isNewline buf = []
      · simp [hres]
      · have hpos : 0 < (residue isNewline buf).length := List.length_pos_iff.mpr hres
        rw [if_pos (by omega)]
        simp [hres]

/-- The first line of a chunk, joined with the bytes kept in `buffer`, and the rest
of the chunk. -/
theorem firstLine_eq (h : GatewayHooks m α) (buffer : Bufchain α) {xs ys : List α} {b : α}
    (hxs : ∀ c ∈ xs, isNewline c = false) (hb : isNewline b = true) :
    (do
      let rc ← h.parseCommand (buffer.content ++ xs ++ [b])
      if rc = -1 then pure ⟨ys.length, true, drained buffer⟩
      else parseRest h (drained buffer) ys) =
    returnOf buffer (xs ++ b :: ys) <$>
      feedUntil (accepts h) (recordsFrom isNewline buffer.content (xs ++ b :: ys)) := by
  have hres : residue isNewline (xs ++ b :: ys) = residue isNewline ys := by
    unfold residue
    rw [residueFrom_line _ _ _ _ _ hxs hb]
  have hrem : ys.length =
      (records isNewline ys).flatten.length + (residue isNewline ys).length := by
    rw [← List.length_append, records_append_residue]
  have hne : findRespLen (xs ++ b :: ys) 0 ≠ 0 := by
    rcases findRespLen_cases (xs ++ b :: ys) 0 with ⟨-, hall⟩ | ⟨_, _, _, -, -, -, hlen⟩
    · simp [hall b (by simp)] at hb
    · omega
  rw [recordsFrom_line _ _ _ _ _ hxs hb]
  simp only [feedUntil_cons, accepts, bind_assoc, pure_bind, map_bind]
  refine bind_congr fun rc => ?_
  by_cases hrc : rc = -1
  · simp only [hrc, if_true, ne_eq, not_true_eq_false, decide_false,
      Bool.false_eq_true, if_false, map_pure, returnOf, hres]
    rw [hrem]
    rfl
  · simp only [hrc, if_false, ne_eq, not_false_eq_true, decide_true, if_true]
    rw [parseRest_eq]
    change _ <$> feedUntil (accepts h) (records isNewline ys) =
      _ <$> feedUntil (accepts h) (records isNewline ys)
    congr 1
    funext r
    cases r with
    | some lines => simp [returnOf, hres]
    | none =>
        simp only [returnOf, acceptedReturn, nextBuffer, hne, if_false, hres]
        split_ifs <;> rfl

/-- **One call**: the chunk goes to the terminal, then the records that it
completes are handed over until one is refused. -/
theorem fromBackend_eq (h : GatewayHooks m α) (buffer : Bufchain α) (data : List α) :
    fromBackend h buffer data = (do
      h.termData data
      returnOf buffer data <$>
        feedUntil (accepts h) (recordsFrom isNewline buffer.content data)) := by
  unfold fromBackend
  refine bind_congr fun _ => ?_
  rcases findRespLen_cases data 0 with ⟨h0, hall⟩ | ⟨xs, b, ys, rfl, hxs, hb, hlen⟩
  · rw [if_pos h0, recordsFrom_of_none _ _ _ hall]
    simp [returnOf, acceptedReturn, nextBuffer, h0]
  · have hne : findRespLen (xs ++ b :: ys) 0 ≠ 0 := by omega
    have htake : (xs ++ b :: ys).take (findRespLen (xs ++ b :: ys) 0) = xs ++ [b] := by
      rw [hlen]
      simp [List.take_append]
    have hdrop : (xs ++ b :: ys).drop (findRespLen (xs ++ b :: ys) 0) = ys := by
      rw [hlen]
      simp [List.drop_append]
    have hrem : (xs ++ b :: ys).length - findRespLen (xs ++ b :: ys) 0 = ys.length := by
      rw [← List.length_drop, hdrop]
    -- both ways to build the first line give the kept bytes and the new ones
    rw [if_neg hne, ← firstLine_eq h buffer hxs hb]
    dsimp only
    by_cases hsize : 0 < buffer.size
    · rw [if_pos hsize, htake, hdrop, hrem, Bufchain.fetch_size, ← List.append_assoc, drained,
        if_pos hsize]
    · rw [if_neg hsize, htake, hdrop, hrem, drained, if_neg hsize,
        buffer.content_eq_nil hsize, List.nil_append]

end OneCall

section Runs

variable {α ε σ τ : Type}

/-- The gateway, the terminal, and the lines handed to `parseCommand` so far. -/
structure Observed (σ τ α : Type) where
  gateway : σ
  terminal : τ
  lines : List (List α)

/-- An arbitrary stateful `parseCommand` that may also abort, an arbitrary
terminal, and a record of the lines handed over. -/
def observe (parse : List α → EStateM ε σ Int) (sink : List α → τ → τ) :
    GatewayHooks (EStateM ε (Observed σ τ α)) α where
  termData data := modify fun o => { o with terminal := sink data o.terminal }
  parseCommand line := fun o =>
    match (parse line).run o.gateway with
    | .ok rc s => .ok rc { o with gateway := s, lines := o.lines ++ [line] }
    | .error e s => .error e { o with gateway := s, lines := o.lines ++ [line] }

/-- The state in which a computation ends, by returning or by aborting. -/
def stateOf {β : Type} : EStateM.Result ε σ β → σ
  | .ok _ s => s
  | .error _ s => s

/-- The lines up to and including the first for which `parseCommand` returns
-1 (or does not return). -/
def handed (parse : List α → EStateM ε σ Int) : σ → List (List α) → List (List α)
  | _, [] => []
  | s, line :: lines =>
      match (parse line).run s with
      | .ok rc s' => if rc = -1 then [line] else line :: handed parse s' lines
      | .error _ _ => [line]

/-- The state after all lines, provided that `parseCommand` returned on each of
them and never with -1. -/
def accepted (parse : List α → EStateM ε σ Int) : σ → List (List α) → Option σ
  | s, [] => some s
  | s, line :: lines =>
      match (parse line).run s with
      | .ok rc s' => if rc = -1 then none else accepted parse s' lines
      | .error _ _ => none

theorem accepted_cons {parse : List α → EStateM ε σ Int} {s s' : σ} {line : List α}
    {lines : List (List α)} (h : accepted parse s (line :: lines) = some s') :
    ∃ rc t, (parse line).run s = .ok rc t ∧ rc ≠ -1 ∧ accepted parse t lines = some s' := by
  cases hp : (parse line).run s with
  | error e t => simp [accepted, hp] at h
  | ok rc t =>
      by_cases hrc : rc = -1
      · simp [accepted, hp, hrc] at h
      · simp only [accepted, hp, hrc, if_false] at h
        exact ⟨rc, t, rfl, hrc, h⟩

section Calls

variable {hooks : GatewayHooks (EStateM ε σ) α} {s s' : σ} {line : List α} {rc : Int}

variable (hooks) in
theorem run_feedUntil_accepted (hcall : (hooks.parseCommand line).run s = .ok rc s')
    (hrc : rc ≠ -1) (rest : List (List α)) :
    (feedUntil (accepts hooks) (line :: rest)).run s =
      (feedUntil (accepts hooks) rest).run s' := by
  simp [feedUntil_cons, accepts, hcall, hrc]

variable (hooks) in
theorem run_feedUntil_refused (hcall : (hooks.parseCommand line).run s = .ok (-1) s')
    (rest : List (List α)) :
    (feedUntil (accepts hooks) (line :: rest)).run s = .ok (some rest) s' := by
  simp [feedUntil_cons, accepts, hcall]

end Calls

variable (parse : List α → EStateM ε σ Int) (sink : List α → τ → τ)

theorem accepted_append (s : σ) (xs ys : List (List α)) :
    accepted parse s (xs ++ ys) =
      (accepted parse s xs).bind (fun s' => accepted parse s' ys) := by
  induction xs generalizing s with
  | nil => rfl
  | cons line xs ih =>
      cases hp : (parse line).run s with
      | error e s' => simp [accepted, hp]
      | ok rc s' =>
          by_cases hrc : rc = -1
          · simp [accepted, hp, hrc]
          · simp [accepted, hp, hrc, ih]

theorem handed_of_accepted {s s' : σ} {xs : List (List α)}
    (h : accepted parse s xs = some s') (ys : List (List α)) :
    handed parse s (xs ++ ys) = xs ++ handed parse s' ys := by
  induction xs generalizing s with
  | nil =>
      simp only [accepted, Option.some.injEq] at h
      subst h
      rfl
  | cons line xs ih =>
      obtain ⟨rc, t, hp, hrc, h⟩ := accepted_cons h
      simp only [List.cons_append, handed, hp, hrc, if_false, ih h]

theorem handed_of_refused {s : σ} {xs : List (List α)}
    (h : accepted parse s xs = none) (ys : List (List α)) :
    handed parse s (xs ++ ys) = handed parse s xs := by
  induction xs generalizing s with
  | nil => simp [accepted] at h
  | cons line xs ih =>
      cases hp : (parse line).run s with
      | error e t => simp [handed, hp]
      | ok rc t =>
          by_cases hrc : rc = -1
          · simp [handed, hp, hrc]
          · simp only [accepted, hp, hrc, if_false] at h
            simp only [List.cons_append, handed, hp, hrc, if_false, ih h]

variable {parse} in
theorem observe_ok {o : Observed σ τ α} {line : List α} {rc : Int} {t : σ}
    (hp : (parse line).run o.gateway = .ok rc t) :
    ((observe parse sink).parseCommand line).run o =
      .ok rc { o with gateway := t, lines := o.lines ++ [line] } := by
  simp only [observe, EStateM.run] at hp ⊢
  rw [hp]

/-- Records that are all accepted are all handed over. -/
theorem feedUntil_accepted {o : Observed σ τ α} {rs : List (List α)} {s' : σ}
    (h : accepted parse o.gateway rs = some s') :
    (feedUntil (accepts (observe parse sink)) rs).run o =
      .ok none { o with gateway := s', lines := o.lines ++ rs } := by
  induction rs generalizing o with
  | nil =>
      simp only [accepted, Option.some.injEq] at h
      subst h
      simp
  | cons line rs ih =>
      obtain ⟨rc, t, hp, hrc, h⟩ := accepted_cons h
      rw [run_feedUntil_accepted _ (observe_ok sink hp) hrc,
        ih (o := { o with gateway := t, lines := o.lines ++ [line] }) h]
      simp

/-- When a record is refused, or aborts, nothing is handed over after it. -/
theorem feedUntil_refused {o : Observed σ τ α} {rs : List (List α)}
    (h : accepted parse o.gateway rs = none) :
    (stateOf ((feedUntil (accepts (observe parse sink)) rs).run o)).lines =
        o.lines ++ handed parse o.gateway rs ∧
      ∀ o', (feedUntil (accepts (observe parse sink)) rs).run o ≠ .ok none o' := by
  induction rs generalizing o with
  | nil => simp [accepted] at h
  | cons line rs ih =>
      cases hp : (parse line).run o.gateway with
      | error e t =>
          have hcall : ((observe parse sink).parseCommand line).run o =
              .error e { o with gateway := t, lines := o.lines ++ [line] } := by
            simp [observe, EStateM.run] at hp ⊢
            rw [hp]
          simp [feedUntil_cons, accepts, hcall, handed, hp, stateOf]
      | ok rc t =>
          have hcall := observe_ok sink hp
          by_cases hrc : rc = -1
          · subst hrc
            simp [run_feedUntil_refused _ hcall, handed, hp, stateOf]
          · simp only [accepted, hp, hrc, if_false] at h
            rw [run_feedUntil_accepted _ hcall hrc]
            simp only [handed, hp, hrc, if_false]
            obtain ⟨h1, h2⟩ := ih (o := { o with gateway := t, lines := o.lines ++ [line] }) h
            refine ⟨?_, h2⟩
            rw [h1]
            simp

variable [Octet α]

/-- Any sequence of calls, from any bytes kept in `buffer`. -/
theorem fromBackends_run (o : Observed σ τ α) (buffer : Bufchain α)
    (chunks : List (List α)) :
    (stateOf ((fromBackends (observe parse sink) chunks buffer).run o)).lines =
        o.lines ++ handed parse o.gateway
          (recordsFrom isNewline buffer.content chunks.flatten) ∧
      ((accepted parse o.gateway
          (recordsFrom isNewline buffer.content chunks.flatten)).isSome →
        ∃ buffer' o',
          (fromBackends (observe parse sink) chunks buffer).run o = .ok (true, buffer') o' ∧
          buffer'.content = residueFrom isNewline buffer.content chunks.flatten) := by
  induction chunks generalizing o buffer with
  | nil =>
      refine ⟨by simp [fromBackends, stateOf, handed], fun _ => ⟨buffer, o, ?_, ?_⟩⟩
      · simp [fromBackends]
      · simp
  | cons data chunks ih =>
      have hcut : recordsFrom isNewline buffer.content (data :: chunks).flatten =
          recordsFrom isNewline buffer.content data ++
            recordsFrom isNewline (nextBuffer buffer data).content chunks.flatten := by
        rw [List.flatten_cons, recordsFrom_append, content_nextBuffer]
      have hres : residueFrom isNewline buffer.content (data :: chunks).flatten =
          residueFrom isNewline (nextBuffer buffer data).content chunks.flatten := by
        rw [List.flatten_cons, residueFrom_append, content_nextBuffer]
      let o₁ : Observed σ τ α := { o with terminal := sink data o.terminal }
      have hterm : ((observe parse sink).termData data).run o = .ok () o₁ := rfl
      rw [hcut, hres, accepted_append]
      cases hacc : accepted parse o.gateway (recordsFrom isNewline buffer.content data) with
      | some s' =>
          have hfeed := feedUntil_accepted parse sink (o := o₁) hacc
          have hcall : (fromBackend (observe parse sink) buffer data).run o =
              .ok ⟨acceptedReturn data, false, nextBuffer buffer data⟩
                ⟨s', sink data o.terminal,
                  o.lines ++ recordsFrom isNewline buffer.content data⟩ := by
            rw [fromBackend_eq]
            simp only [EStateM.run_bind, hterm, ← bind_pure_comp, hfeed]
            rfl
          obtain ⟨ih1, ih2⟩ := ih
            ⟨s', sink data o.terminal,
              o.lines ++ recordsFrom isNewline buffer.content data⟩
            (nextBuffer buffer data)
          simp only [fromBackends, EStateM.run_bind, hcall, Bool.false_eq_true, if_false]
          rw [handed_of_accepted parse hacc, ← List.append_assoc]
          exact ⟨ih1, ih2⟩
      | none =>
          obtain ⟨h1, h2⟩ := feedUntil_refused parse sink (o := o₁) hacc
          rw [handed_of_refused parse hacc]
          refine ⟨?_, by simp⟩
          rw [fromBackends, fromBackend_eq]
          simp only [EStateM.run_bind, hterm, ← bind_pure_comp]
          cases hrun : (feedUntil (accepts (observe parse sink))
              (recordsFrom isNewline buffer.content data)).run o₁ with
          | error e o' =>
              rw [hrun] at h1
              exact h1
          | ok rest o' =>
              cases rest with
              | none => exact absurd hrun (h2 o')
              | some rest =>
                  rw [hrun] at h1
                  exact h1

/-- **Framing does not depend on chunking.**  However a stream is cut into
calls, the lines handed to `parseCommand` are its newline-terminated lines up to
and including the first one refused; and as long as none was refused, after
every call `buffer` holds what follows the last newline. -/
theorem fromBackends_framing (s : σ) (t : τ) (chunks : List (List α)) :
    (stateOf ((fromBackends (observe parse sink) chunks []).run ⟨s, t, []⟩)).lines =
        handed parse s (records isNewline chunks.flatten) ∧
      ∀ calls, calls <+: chunks →
        (accepted parse s (records isNewline calls.flatten)).isSome →
        ∃ buffer o,
          (fromBackends (observe parse sink) calls []).run ⟨s, t, []⟩ =
            .ok (true, buffer) o ∧
          buffer.content = residue isNewline calls.flatten := by
  refine ⟨?_, fun calls _ hacc => ?_⟩
  · simpa [records] using (fromBackends_run parse sink ⟨s, t, []⟩ [] chunks).1
  · exact (fromBackends_run parse sink ⟨s, t, []⟩ [] calls).2 hacc

end Runs

end Tmux
end Qutty
