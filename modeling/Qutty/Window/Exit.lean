import Qutty.Window.Feed

/-!
# Leaving control mode

A `%exit` line makes `TmuxGateway::fromBackend` return early, with the number of
bytes of its data that follow the line.  `from_backend` takes that number for
the number of bytes that were used up: it leaves control mode if the number is
not zero, and passes the data from there on to `term_data`.

`exitHandover_iff`: with the data of that call cut into `a`, up to the newline
of the `%exit` line, and `b` after it, this is right exactly when `a` and `b`
have the same length.
-/

namespace Qutty

open Lib

variable {α ε ρ σ π : Type}

/-- What `term_data` gets from the `%exit` line on. -/
def fedAfterExit (trace : List (WindowEvent α π)) : List α :=
  fed (trace.dropWhile (fun
    | .startDetach => false
    | _ => true))

/-- Up to the first exit nothing counts. -/
theorem fedAfterExit_append {s t : List (WindowEvent α π)} (hs : .startDetach ∉ s) :
    fedAfterExit (s ++ .startDetach :: t) = fed t := by
  unfold fedAfterExit
  rw [List.dropWhile_append_of_pos]
  · simp [fed]
  · intro e he
    cases e with
    | startDetach => exact absurd he hs
    | termData bytes => rfl
    | gatewayData bytes => rfl
    | entered b => rfl
    | closedPane p => rfl

@[simp] theorem fed_closedPane (ps : List π) :
    fed (ps.map (WindowEvent.closedPane (α := α))) = [] := by
  simp [fed]

namespace Window

variable [Octet α]

/-- A window in gateway mode, and a stream whose first exit notification outside
a reply ends with `a`: `before` holds the data of the calls before, and the
lines up to the last one are accepted. -/
structure ExitStream (W : Window α ε ρ σ π) (w : GuiTerminalWindow α ε ρ σ π)
    (before : List (List α)) (a : List α) (c : Tmux.TmuxGateway α ρ σ) : Prop where
  idle : w.term.inTermOut = false
  mode : w.tmuxMode = .gateway
  attached : .startDetach ∉ w.trace
  nonempty : a ≠ []
  lines : ∃ g lines line c₁, w.tmuxGateway = some g ∧
    recordsFrom Tmux.isNewline g.buffer.content (before.flatten ++ a) = lines ++ [line] ∧
    residueFrom Tmux.isNewline g.buffer.content (before.flatten ++ a) = [] ∧
    Tmux.accepted (Tmux.TmuxGateway.parseCommand W.handlers) g.commands lines = some c₁ ∧
    Tmux.TmuxGateway.parseCommand W.handlers line c₁ = .ok (-1) c

/-- After the call with the `%exit` line the window has left control mode, and
from then on the terminal gets what follows the line. -/
def ExitHandover (W : Window α ε ρ σ π) (w : GuiTerminalWindow α ε ρ σ π)
    (before : List (List α)) (a b : List α) (after : List (List α))
    (c : Tmux.TmuxGateway α ρ σ) : Prop :=
  ∃ w₁ w₂, (W.fromBackends (before ++ [a ++ b])).run w = .ok () w₁ ∧
    w₁.tmuxMode = .none ∧ w₁.tmuxGateway = none ∧
    (∀ p ∈ W.mapPanes c.state, .closedPane p ∈ w₁.trace) ∧
    (W.fromBackends after).run w₁ = .ok () w₂ ∧
    fedAfterExit w₂.trace = b ++ after.flatten

/-- What `from_backend` passes to `term_data` after the gateway has returned from
the call with the `%exit` line. -/
def exitFeed (a b : List α) : List α :=
  if b = [] then a else (a ++ b).drop b.length

/-- Everything that the terminal gets in such a run. -/
def exitFeeds (before : List (List α)) (a b : List α) (after : List (List α)) :
    List (List α) :=
  before.flatMap (fun data => [data, data]) ++ [a ++ b, exitFeed a b] ++ after

variable {W : Window α ε ρ σ π} {w : GuiTerminalWindow α ε ρ σ π} {t : Terminal α ε}

/-- The calls before the exit leave the window in gateway mode. -/
theorem fromBackends_before {before : List (List α)} {g : Gateway α ρ σ}
    {c : Tmux.TmuxGateway α ρ σ} (hidle : w.term.inTermOut = false)
    (hmode : w.tmuxMode = .gateway) (hg : w.tmuxGateway = some g)
    (hf : Terminal.feeds W.emulator w.term (before.flatMap (fun data => [data, data])) = some t)
    (hacc : Tmux.accepted (Tmux.TmuxGateway.parseCommand W.handlers) g.commands
      (recordsFrom Tmux.isNewline g.buffer.content before.flatten) = some c) :
    ∃ w' buffer, (W.fromBackends before).run w = .ok () w' ∧ w'.term = t ∧
      w'.term.inTermOut = false ∧ w'.tmuxMode = .gateway ∧
      w'.tmuxGateway = some ⟨buffer, c⟩ ∧
      buffer.content = residueFrom Tmux.isNewline g.buffer.content before.flatten ∧
      (.startDetach ∉ w.trace → .startDetach ∉ w'.trace) := by
  induction before generalizing w g with
  | nil =>
      simp only [List.flatMap_nil, Terminal.feeds, Option.some.injEq] at hf
      simp only [List.flatten_nil, recordsFrom_nil, Tmux.accepted, Option.some.injEq] at hacc
      subst hf hacc
      exact ⟨w, g.buffer, rfl, rfl, hidle, hmode, hg, rfl, id⟩
  | cons data before ih =>
      simp only [List.flatMap_cons, List.cons_append, List.nil_append, Terminal.feeds] at hf
      obtain ⟨t₁, hf₁, hf⟩ := Option.bind_eq_some_iff.mp hf
      obtain ⟨t₂, hf₂, hf⟩ := Option.bind_eq_some_iff.mp hf
      rw [List.flatten_cons, recordsFrom_append, Tmux.accepted_append] at hacc
      obtain ⟨c₁, hacc₁, hacc⟩ := Option.bind_eq_some_iff.mp hacc
      have hrun := fromBackend_of_accepted hidle hmode hg hf₁ hf₂ hacc₁
      have hidle₂ : t₂.inTermOut = false :=
        feed_inTermOut (w := { w with term := t₁ }) (feed_inTermOut hidle hf₁) hf₂
      rw [← Tmux.content_nextBuffer] at hacc
      obtain ⟨w', buffer, hrun', hterm, hidle', hmode', hg', hbuf, htrace⟩ :=
        ih (w := { w with tmuxGateway := some ⟨Tmux.nextBuffer g.buffer data, c₁⟩
                          term := t₂
                          trace := w.trace ++
                            [.gatewayData data, .termData data, .termData data] })
          hidle₂ hmode rfl hf hacc
      refine ⟨w', buffer, run_bind_ok.mpr ⟨_, _, hrun, hrun'⟩, hterm, hidle', hmode', hg',
        ?_, fun hw => htrace (by simpa using hw)⟩
      rw [hbuf, List.flatten_cons, residueFrom_append, Tmux.content_nextBuffer]

/-- A piece that leaves no residue ends with a newline, whatever came before it. -/
theorem residue_of_residueFrom {p a : List α} (ha : a ≠ [])
    (h : residueFrom Tmux.isNewline p a = []) : residue Tmux.isNewline a = [] := by
  rcases Tmux.findRespLen_cases a 0 with ⟨-, hall⟩ | ⟨xs, b, ys, rfl, hxs, hb, -⟩
  · rw [residueFrom_of_none _ _ _ hall] at h
    exact absurd (List.append_eq_nil_iff.mp h).2 ha
  · rw [residueFrom_line _ _ _ _ _ hxs hb] at h
    unfold residue
    rw [residueFrom_line _ _ _ _ _ hxs hb, h]

/-- The gateway returns the number of bytes after the `%exit` line. -/
theorem gatewayFromBackend_exit {a b line : List α} {lines : List (List α)}
    {g : Gateway α ρ σ} {c c' : Tmux.TmuxGateway α ρ σ}
    (hidle : w.term.inTermOut = false) (hg : w.tmuxGateway = some g)
    (hf : Terminal.feed W.emulator w.term (a ++ b) = some t) (ha : a ≠ [])
    (hrec : recordsFrom Tmux.isNewline g.buffer.content a = lines ++ [line])
    (hres : residueFrom Tmux.isNewline g.buffer.content a = [])
    (hacc : Tmux.accepted (Tmux.TmuxGateway.parseCommand W.handlers) g.commands lines =
      some c)
    (hline : Tmux.TmuxGateway.parseCommand W.handlers line c = .ok (-1) c') :
    (W.gatewayFromBackend W.termData (a ++ b)).run w =
      .ok b.length
        { w with tmuxMode := .gatewayDetachInit
                 tmuxGateway := some ⟨Tmux.drained g.buffer, c'⟩
                 term := t
                 trace := w.trace ++
                   [.gatewayData (a ++ b), .termData (a ++ b), .startDetach] } := by
  have hrecs : recordsFrom Tmux.isNewline g.buffer.content (a ++ b) =
      lines ++ line :: records Tmux.isNewline b := by
    rw [recordsFrom_append, hrec, hres, List.append_assoc]
    rfl
  have hrest : residue Tmux.isNewline (a ++ b) = residue Tmux.isNewline b := by
    have hra := residue_of_residueFrom ha hres
    unfold residue at hra ⊢
    rw [residueFrom_append, hra]
  have hlen : (records Tmux.isNewline b).flatten.length +
      (residue Tmux.isNewline b).length = b.length := by
    rw [← List.length_append, records_append_residue]
  rw [gatewayFromBackend_refused hidle hg hf hrecs hacc hline, hrest, hlen]

/-- With nothing behind the `%exit` line the window stays in control mode. -/
theorem fromBackend_exit_nil {a : List α} {g : Gateway α ρ σ} {t₁ : Terminal α ε}
    {w₁ : GuiTerminalWindow α ε ρ σ π} (hmode : w.tmuxMode = .gateway)
    (hg : w.tmuxGateway = some g)
    (hgw : (W.gatewayFromBackend W.termData a).run w = .ok 0 w₁)
    (hidle : w₁.term.inTermOut = false)
    (hf : Terminal.feed W.emulator w₁.term a = some t₁) :
    (W.fromBackend a).run w =
      .ok t₁.inbuf.size { w₁.record (.termData a) with term := t₁ } := by
  have hcond : w.tmuxMode = .gateway ∧ w.tmuxGateway.isSome := ⟨hmode, by simp [hg]⟩
  simp only [fromBackend, EStateM.run_bind, EStateM.run_get]
  rw [if_pos hcond]
  simp only [EStateM.run_bind, EStateM.run_get, hgw, ne_eq, not_true_eq_false, false_and,
    if_false]
  exact termData_of_feed hidle hf

/-- With something behind it, the window leaves control mode and passes on the
data from the wrong place. -/
theorem fromBackend_exit_cons {data : List α} {n : Nat} {g g₁ : Gateway α ρ σ}
    {t₁ : Terminal α ε} {w₁ : GuiTerminalWindow α ε ρ σ π}
    (hmode : w.tmuxMode = .gateway) (hg : w.tmuxGateway = some g)
    (hgw : (W.gatewayFromBackend W.termData data).run w = .ok n w₁)
    (hn : n ≠ 0) (hlt : n < data.length) (hmode₁ : w₁.tmuxMode = .gatewayDetachInit)
    (hg₁ : w₁.tmuxGateway = some g₁) (hidle : w₁.term.inTermOut = false)
    (hf : Terminal.feed W.emulator w₁.term (data.drop n) = some t₁) :
    (W.fromBackend data).run w =
      .ok t₁.inbuf.size
        { w₁ with tmuxMode := .none
                  tmuxGateway := none
                  term := t₁
                  trace := w₁.trace ++ ((W.mapPanes g₁.commands.state).map .closedPane ++
                    [.termData (data.drop n)]) } := by
  have hcond : w.tmuxMode = .gateway ∧ w.tmuxGateway.isSome := ⟨hmode, by simp [hg]⟩
  have hdetach : W.detachTmuxControllerMode.run w₁ = .ok ()
      { w₁ with tmuxMode := .none
                tmuxGateway := none
                trace := w₁.trace ++ (W.mapPanes g₁.commands.state).map .closedPane } := by
    simp [detachTmuxControllerMode, hmode₁, hg₁]
  have hdata := termData_of_feed (W := W)
    (w := { w₁ with tmuxMode := .none
                    tmuxGateway := none
                    trace := w₁.trace ++ (W.mapPanes g₁.commands.state).map .closedPane })
    hidle hf
  simp only [fromBackend, EStateM.run_bind, EStateM.run_get]
  rw [if_pos hcond]
  simp only [EStateM.run_bind, EStateM.run_get, hgw]
  rw [if_pos ⟨hn, hlt, hmode₁⟩]
  simp only [EStateM.run_bind, hdetach]
  simpa [GuiTerminalWindow.record] using hdata

/-- After the exit every call is just `term_data`. -/
theorem fromBackends_after {after : List (List α)} (hidle : w.term.inTermOut = false)
    (hmode : w.tmuxMode = .none)
    (hf : Terminal.feeds W.emulator w.term after = some t) :
    ∃ w', (W.fromBackends after).run w = .ok () w' ∧
      w'.trace = w.trace ++ after.map .termData := by
  induction after generalizing w with
  | nil => exact ⟨w, rfl, by simp⟩
  | cons data after ih =>
      simp only [Terminal.feeds] at hf
      obtain ⟨t₁, hf₁, hf⟩ := Option.bind_eq_some_iff.mp hf
      have hrun : (W.fromBackend data).run w =
          .ok t₁.inbuf.size { w.record (.termData data) with term := t₁ } := by
        rw [fromBackend_of_not_gateway (by simp [hmode]), termData_of_feed hidle hf₁]
      obtain ⟨w', hrun', htrace⟩ := ih (w := { w.record (.termData data) with term := t₁ })
        (feed_inTermOut hidle hf₁) hmode hf
      refine ⟨w', run_bind_ok.mpr ⟨_, _, hrun, hrun'⟩, ?_⟩
      rw [htrace]
      simp [GuiTerminalWindow.record]

omit [Octet α] in
theorem fed_map_termData (chunks : List (List α)) :
    fed (chunks.map (WindowEvent.termData (π := π))) = chunks.flatten := by
  induction chunks with
  | nil => rfl
  | cons data chunks ih => simp [ih]

/-- One more call at the end of a run. -/
theorem fromBackends_snoc {xs : List (List α)} {data : List α} {n : Nat}
    {w₀ w₁ : GuiTerminalWindow α ε ρ σ π} (h₀ : (W.fromBackends xs).run w = .ok () w₀)
    (h₁ : (W.fromBackend data).run w₀ = .ok n w₁) :
    (W.fromBackends (xs ++ [data])).run w = .ok () w₁ := by
  induction xs generalizing w with
  | nil =>
      cases h₀
      exact run_bind_ok.mpr ⟨n, w₁, h₁, rfl⟩
  | cons x xs ih =>
      obtain ⟨m, w', hx, h₀⟩ := run_bind_ok.mp h₀
      exact run_bind_ok.mpr ⟨m, w', hx, ih h₀⟩

/-- A piece that ends with a newline completes a record. -/
theorem recordsFrom_ne_nil {p a : List α} (ha : a ≠ [])
    (h : residueFrom Tmux.isNewline p a = []) : recordsFrom Tmux.isNewline p a ≠ [] := by
  intro hnil
  have hcut := flatten_recordsFrom_append Tmux.isNewline p a
  rw [hnil, h] at hcut
  exact ha (List.append_eq_nil_iff.mp hcut.symm).2

/-- The window when the call with the `%exit` line is made, and what the gateway
makes of that call. -/
theorem ExitStream.reach {before : List (List α)} {a b : List α}
    {c : Tmux.TmuxGateway α ρ σ} {t₁ : Terminal α ε} (hs : ExitStream W w before a c)
    (hf : Terminal.feeds W.emulator w.term (before.flatMap (fun data => [data, data])) = some t)
    (hf₁ : Terminal.feed W.emulator t (a ++ b) = some t₁) :
    ∃ w₀ g buffer, (W.fromBackends before).run w = .ok () w₀ ∧
      w₀.term.inTermOut = false ∧ w₀.term = t ∧ w₀.tmuxMode = .gateway ∧
      w₀.tmuxGateway = some g ∧ .startDetach ∉ w₀.trace ∧
      (W.gatewayFromBackend W.termData (a ++ b)).run w₀ =
        .ok b.length
          { w₀ with tmuxMode := .gatewayDetachInit
                    tmuxGateway := some ⟨buffer, c⟩
                    term := t₁
                    trace := w₀.trace ++
                      [.gatewayData (a ++ b), .termData (a ++ b), .startDetach] } := by
  obtain ⟨g, lines, line, c₁, hg, hrec, hres, hacc, hline⟩ := hs.lines
  rw [recordsFrom_append] at hrec
  rw [residueFrom_append] at hres
  -- the last record is completed by `a`
  obtain ⟨ls, l, hls⟩ : ∃ ls l, recordsFrom Tmux.isNewline
      (residueFrom Tmux.isNewline g.buffer.content before.flatten) a = ls ++ [l] := by
    rcases List.eq_nil_or_concat (recordsFrom Tmux.isNewline
      (residueFrom Tmux.isNewline g.buffer.content before.flatten) a) with hnil | ⟨ls, l, h⟩
    · exact absurd hnil (recordsFrom_ne_nil hs.nonempty hres)
    · exact ⟨ls, l, by rw [h, List.concat_eq_append]⟩
  rw [hls, ← List.append_assoc] at hrec
  obtain ⟨hlines, hlast⟩ := List.append_inj' hrec rfl
  cases hlast
  rw [← hlines, Tmux.accepted_append] at hacc
  obtain ⟨c₀, hacc₀, hacc⟩ := Option.bind_eq_some_iff.mp hacc
  obtain ⟨w₀, buffer, hrun, hterm, hidle, hmode, hg₀, hbuf, htrace⟩ :=
    fromBackends_before hs.idle hs.mode hg hf hacc₀
  rw [← hbuf] at hls hres
  refine ⟨w₀, ⟨buffer, c₀⟩, Tmux.drained buffer, hrun, hidle, hterm, hmode, hg₀,
    htrace hs.attached, ?_⟩
  exact gatewayFromBackend_exit hidle hg₀ (by rw [hterm]; exact hf₁) hs.nonempty hls hres
    hacc hline

/-- Nothing follows the `%exit` line: the window stays in control mode. -/
theorem ExitStream.run_nil {before : List (List α)} {a : List α}
    {c : Tmux.TmuxGateway α ρ σ} {t₁ t₂ : Terminal α ε} (hs : ExitStream W w before a c)
    (hf : Terminal.feeds W.emulator w.term (before.flatMap (fun data => [data, data])) = some t)
    (hf₁ : Terminal.feed W.emulator t (a ++ []) = some t₁)
    (hf₂ : Terminal.feed W.emulator t₁ (exitFeed a []) = some t₂) :
    ∃ w₁, (W.fromBackends (before ++ [a ++ []])).run w = .ok () w₁ ∧
      w₁.tmuxMode = .gatewayDetachInit := by
  obtain ⟨w₀, g, buffer, hrun₀, hidle, hterm, hmode, hg, -, hgw⟩ := hs.reach hf hf₁
  have hidle₁ : t₁.inTermOut = false :=
    feed_inTermOut (W := W) (w := w₀) hidle (by rw [hterm]; exact hf₁)
  simp only [exitFeed, if_true] at hf₂
  simp only [List.append_nil] at hgw ⊢
  exact ⟨_, fromBackends_snoc hrun₀ (fromBackend_exit_nil hmode hg hgw hidle₁ hf₂), rfl⟩

/-- Something follows it: the window leaves control mode, and the terminal gets the
data from the wrong place on. -/
theorem ExitStream.run_cons {before : List (List α)} {a b : List α}
    {c : Tmux.TmuxGateway α ρ σ} {t₁ t₂ t₃ : Terminal α ε} (hs : ExitStream W w before a c)
    (after : List (List α)) (hb : b ≠ [])
    (hf : Terminal.feeds W.emulator w.term (before.flatMap (fun data => [data, data])) = some t)
    (hf₁ : Terminal.feed W.emulator t (a ++ b) = some t₁)
    (hf₂ : Terminal.feed W.emulator t₁ (exitFeed a b) = some t₂)
    (hf₃ : Terminal.feeds W.emulator t₂ after = some t₃) :
    ∃ w₁ w₂, (W.fromBackends (before ++ [a ++ b])).run w = .ok () w₁ ∧
      w₁.tmuxMode = .none ∧ w₁.tmuxGateway = none ∧
      (∀ p ∈ W.mapPanes c.state, .closedPane p ∈ w₁.trace) ∧
      (W.fromBackends after).run w₁ = .ok () w₂ ∧
      fedAfterExit w₂.trace = (a ++ b).drop b.length ++ after.flatten := by
  obtain ⟨w₀, g, buffer, hrun₀, hidle, hterm, hmode, hg, htrace, hgw⟩ := hs.reach hf hf₁
  have hidle₁ : t₁.inTermOut = false :=
    feed_inTermOut (W := W) (w := w₀) hidle (by rw [hterm]; exact hf₁)
  have hpos : 0 < a.length := List.length_pos_iff.mpr hs.nonempty
  have hbpos : 0 < b.length := List.length_pos_iff.mpr hb
  have hlt : b.length < (a ++ b).length := by
    simp only [List.length_append]
    omega
  simp only [exitFeed, hb, if_false] at hf₂
  have hcall := fromBackend_exit_cons hmode hg hgw (by omega) hlt rfl rfl hidle₁ hf₂
  have hidle₂ := feed_inTermOut (W := W) (w := { w₀ with term := t₁ }) hidle₁ hf₂
  obtain ⟨w₂, hrun₂, htrace₂⟩ := fromBackends_after (W := W)
    (w := { w₀ with
      tmuxMode := .none
      tmuxGateway := none
      term := t₂
      trace := w₀.trace ++
        [.gatewayData (a ++ b), .termData (a ++ b), .startDetach] ++
          ((W.mapPanes c.state).map .closedPane ++
            [.termData ((a ++ b).drop b.length)]) }) hidle₂ rfl hf₃
  refine ⟨_, w₂, fromBackends_snoc hrun₀ hcall, rfl, rfl, fun p hp => by simp [hp], hrun₂, ?_⟩
  have hsplit : w₂.trace =
      (w₀.trace ++ [.gatewayData (a ++ b), .termData (a ++ b)]) ++ .startDetach ::
        ((W.mapPanes c.state).map .closedPane ++
          .termData ((a ++ b).drop b.length) :: after.map .termData) := by
    rw [htrace₂]
    simp
  rw [hsplit, fedAfterExit_append (by simpa using htrace)]
  simp [fed_map_termData]

/-- **The exit hand-over** works exactly when as many bytes follow the `%exit`
line in its call as stand before its end, as long as the terminal completes no
introducer in the run. -/
theorem exitHandover_iff (W : Window α ε ρ σ π) (w : GuiTerminalWindow α ε ρ σ π)
    (before : List (List α)) (a b : List α) (after : List (List α))
    (c : Tmux.TmuxGateway α ρ σ) (hs : ExitStream W w before a c)
    (hq : (Terminal.feeds W.emulator w.term (exitFeeds before a b after)).isSome) :
    ExitHandover W w before a b after c ↔ a.length = b.length := by
  obtain ⟨t₃, hfeeds⟩ := Option.isSome_iff_exists.mp hq
  rw [exitFeeds, List.append_assoc, Terminal.feeds_append] at hfeeds
  obtain ⟨t, hf, hfeeds⟩ := Option.bind_eq_some_iff.mp hfeeds
  obtain ⟨t₁, hf₁, hfeeds⟩ := Option.bind_eq_some_iff.mp hfeeds
  obtain ⟨t₂, hf₂, hf₃⟩ := Option.bind_eq_some_iff.mp hfeeds
  by_cases hb : b = []
  · subst hb
    obtain ⟨w₁, hrun₁, hmode⟩ := hs.run_nil hf hf₁ hf₂
    have hpos : 0 < a.length := List.length_pos_iff.mpr hs.nonempty
    constructor
    · rintro ⟨w₁', w₂, hrun, hnone, -⟩
      cases hrun₁.symm.trans hrun
      rw [hmode] at hnone
      cases hnone
    · intro hlen
      simp only [List.length_nil] at hlen
      omega
  · obtain ⟨w₁, w₂, hrun₁, hmode, hg, hclosed, hrun₂, hfed⟩ :=
      hs.run_cons after hb hf hf₁ hf₂ hf₃
    constructor
    · rintro ⟨w₁', w₂', hrun, -, -, -, hrun', hpost⟩
      cases hrun₁.symm.trans hrun
      cases hrun₂.symm.trans hrun'
      rw [hfed] at hpost
      have hlen := congrArg List.length hpost
      simp only [List.length_append, List.length_drop] at hlen
      omega
    · intro hlen
      refine ⟨w₁, w₂, hrun₁, hmode, hg, hclosed, hrun₂, ?_⟩
      rw [hfed, ← hlen, List.drop_left]

end Window

/-- A window that has just entered gateway mode. -/
def gatewayWindow : GuiTerminalWindow (Nat × UInt8) Unit Unit Unit Nat :=
  { tmuxMode := .gateway
    tmuxGateway := some ⟨[], Tmux.TmuxGateway.init ()⟩
    term := ⟨[], false, [], ⟨.toplevel, 0, ()⟩⟩
    trace := [] }

/-- `%exit` and a newline. -/
def exitLine : List (Nat × UInt8) := label (ascii ['%', 'e', 'x', 'i', 't', '\n'])

/-- The commands of the gateway after the `%exit` line. -/
def exitCommands : Tmux.TmuxGateway (Nat × UInt8) Unit Unit :=
  ((Tmux.TmuxGateway.init ()).record (.line exitLine)).dispatch plainWindow.handlers .exit
    exitLine

theorem exitStream_exitLine :
    Window.ExitStream plainWindow gatewayWindow [] exitLine exitCommands where
  idle := rfl
  mode := rfl
  attached := by simp [gatewayWindow]
  nonempty := by decide
  lines := ⟨⟨[], Tmux.TmuxGateway.init ()⟩, [], exitLine, Tmux.TmuxGateway.init (), rfl,
    by decide, by decide, rfl, rfl⟩

/-- Six bytes up to the newline, six bytes behind it, and two in a later call. -/
theorem exitHandover_iff_exitLine :
    Window.ExitHandover plainWindow gatewayWindow [] exitLine
        (label (ascii ['u', 'v', 'w', 'x', 'y', 'z'])) [[(12, 0x61), (13, 0x62)]]
        exitCommands ↔
      exitLine.length = (label (ascii ['u', 'v', 'w', 'x', 'y', 'z'])).length :=
  Window.exitHandover_iff plainWindow gatewayWindow [] exitLine _ _ exitCommands
    exitStream_exitLine (by decide +kernel)

/-- When the call ends with the `%exit` line, the window stays in control mode. -/
theorem not_exitHandover_exitLine :
    Window.ExitStream plainWindow gatewayWindow [] exitLine exitCommands ∧
      ¬ Window.ExitHandover plainWindow gatewayWindow [] exitLine [] [] exitCommands := by
  refine ⟨exitStream_exitLine, ?_⟩
  rintro ⟨w₁, w₂, hrun, hnone, -⟩
  have heval : returns (fun w => decide (w.tmuxMode = .gatewayDetachInit))
      ((plainWindow.fromBackends ([] ++ [exitLine ++ []])).run gatewayWindow) = true := by
    decide +kernel
  obtain ⟨_, w, hw, hp⟩ := exists_of_returns heval
  rw [hrun] at hw
  cases hw
  rw [hnone] at hp
  exact absurd hp (by decide)

end Qutty
