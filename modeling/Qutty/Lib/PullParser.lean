import Mathlib.Tactic.Ring
import Mathlib.Data.List.Basic

/-!
# Pull parsers

A pull parser reports the start tags and the end tags of a document one after the
other, and code reads them with `readNextStartElement` and `skipCurrentElement` in
nested loops.  A parser that meets an error or the end of its input reports nothing
more, which such a loop takes for the end tag of its element.

`Content` relates what is left of a document to the elements up to the next end tag,
where elements that are cut off end with the input.  A loop that reads one element by
another (`Reads`) is a fold over the content (`Reads.loop`), so it never sees where a
document was cut (`Content.append_stops`).
-/

namespace Qutty
namespace Lib
namespace PullParser

variable {τ σ : Type}

/-- What the parser reports; a start tag comes with its name and its attributes. -/
inductive Event (τ : Type) where
  | start (tag : τ)
  | stop
deriving DecidableEq

/-- An element of a document. -/
inductive Element (τ : Type) where
  | mk (tag : τ) (children : List (Element τ))

namespace Element

/-- The start tag. -/
def tag : Element τ → τ
  | mk tag _ => tag

/-- The elements inside. -/
def children : Element τ → List (Element τ)
  | mk _ children => children

mutual

/-- The tags of an element. -/
def events : Element τ → List (Event τ)
  | mk tag children => .start tag :: (eventsOf children ++ [.stop])

/-- The tags of several elements. -/
def eventsOf : List (Element τ) → List (Event τ)
  | [] => []
  | e :: es => e.events ++ eventsOf es

end

end Element

section Parser

/-- `readNextStartElement`: the start tag, if there is one before the next end tag. -/
def readNextStartElement : List (Event τ) → Option τ × List (Event τ)
  | [] => (none, [])
  | .start tag :: es => (some tag, es)
  | .stop :: es => (none, es)

/-- The loop of `skipCurrentElement`, with the number of open elements. -/
def skipOpen : Nat → List (Event τ) → List (Event τ)
  | 0, es => es
  | _ + 1, [] => []
  | depth + 1, .start _ :: es => skipOpen (depth + 2) es
  | depth + 1, .stop :: es => skipOpen depth es

/-- `skipCurrentElement`. -/
def skipCurrentElement (es : List (Event τ)) : List (Event τ) := skipOpen 1 es

/-- `while (readNextStartElement()) body`, for a number of rounds; none if the body aborts. -/
def whileStart (body : τ → List (Event τ) → σ → Option (List (Event τ) × σ)) :
    Nat → List (Event τ) → σ → Option (List (Event τ) × σ)
  | 0, _, _ => none
  | rounds + 1, es, s =>
      match readNextStartElement es with
      | (none, es) => some (es, s)
      | (some tag, es) => (body tag es s).bind (fun r => whileStart body rounds r.1 r.2)

/-- The loop; every round reads a tag. -/
def loop (body : τ → List (Event τ) → σ → Option (List (Event τ) × σ)) (es : List (Event τ))
    (s : σ) : Option (List (Event τ) × σ) :=
  whileStart body (es.length + 1) es s

end Parser

section Contents

/-- The elements up to the next end tag, and what follows it. -/
inductive Content : List (Event τ) → List (Element τ) → List (Event τ) → Prop where
  | cut : Content [] [] []
  | stop (es : List (Event τ)) : Content (.stop :: es) [] es
  | element {tag : τ} {es inner rest : List (Event τ)} {children siblings : List (Element τ)}
      (hchildren : Content es children inner) (hsiblings : Content inner siblings rest) :
      Content (.start tag :: es) (.mk tag children :: siblings) rest

variable {es rest : List (Event τ)} {elements : List (Element τ)}

theorem Content.length_le (h : Content es elements rest) : rest.length ≤ es.length := by
  induction h with
  | cut => exact Nat.le_refl _
  | stop es => simp
  | element _ _ ihc ihs =>
      rw [List.length_cons]
      omega

/-- There are as many tags as elements. -/
theorem Content.elements_length_le (h : Content es elements rest) :
    elements.length ≤ es.length := by
  induction h with
  | cut => exact Nat.le_refl _
  | stop es => simp
  | element hc _ _ ihs =>
      have hle := hc.length_le
      rw [List.length_cons, List.length_cons]
      omega

/-- Whatever is left of a document has a content. -/
theorem exists_content (es : List (Event τ)) : ∃ elements rest, Content es elements rest := by
  induction hn : es.length using Nat.strong_induction_on generalizing es with
  | _ n ih =>
      match es with
      | [] => exact ⟨[], [], .cut⟩
      | .stop :: es => exact ⟨[], es, .stop es⟩
      | .start tag :: es =>
          rw [List.length_cons] at hn
          obtain ⟨children, inner, hchildren⟩ := ih es.length (by omega) es rfl
          have hle := hchildren.length_le
          obtain ⟨siblings, rest, hsiblings⟩ := ih inner.length (by omega) inner rfl
          exact ⟨_, rest, .element hchildren hsiblings⟩

/-- The content is determined by what is left. -/
theorem Content.unique (h : Content es elements rest) {elements' : List (Element τ)}
    {rest' : List (Event τ)} (h' : Content es elements' rest') :
    elements = elements' ∧ rest = rest' := by
  induction h generalizing elements' rest' with
  | cut =>
      cases h'
      exact ⟨rfl, rfl⟩
  | stop es =>
      cases h'
      exact ⟨rfl, rfl⟩
  | element _ _ ihc ihs =>
      cases h' with
      | element hc hs =>
          obtain ⟨rfl, rfl⟩ := ihc hc
          obtain ⟨rfl, rfl⟩ := ihs hs
          exact ⟨rfl, rfl⟩

/-- `skipCurrentElement` reads the content of the open elements. -/
theorem Content.skipOpen (h : Content es elements rest) (depth : Nat) :
    skipOpen (depth + 1) es = skipOpen depth rest := by
  induction h generalizing depth with
  | cut => cases depth <;> rfl
  | stop es => rfl
  | element _ _ ihc ihs => exact (ihc (depth + 1)).trans (ihs depth)

theorem Content.skip (h : Content es elements rest) : skipCurrentElement es = rest := by
  rw [skipCurrentElement, h.skipOpen, PullParser.skipOpen]

/-- Elements that are written out in full are read as they are. -/
theorem content_eventsOf (elements : List (Element τ)) {es siblings rest}
    (h : Content es siblings rest) :
    Content (Element.eventsOf elements ++ es) (elements ++ siblings) rest := by
  match elements with
  | [] => exact h
  | .mk tag children :: elements =>
      have hinner := content_eventsOf children (.stop (Element.eventsOf elements ++ es))
      rw [List.append_nil] at hinner
      have hrest := content_eventsOf elements h
      have helement : Content (.start tag :: (Element.eventsOf children ++
          (.stop :: (Element.eventsOf elements ++ es))))
          (.mk tag children :: (elements ++ siblings)) rest := .element hinner hrest
      simpa [Element.eventsOf, Element.events] using helement

/-- **What was cut off is read as if its end tags were there.** -/
theorem Content.append_stops (h : Content es elements rest) (n : Nat) :
    ∃ m, Content (es ++ List.replicate n .stop) elements (rest ++ List.replicate m .stop) := by
  induction h generalizing n with
  | cut =>
      cases n with
      | zero => exact ⟨0, .cut⟩
      | succ n => exact ⟨n, .stop _⟩
  | stop es => exact ⟨n, .stop _⟩
  | element _ _ ihc ihs =>
      obtain ⟨m, hm⟩ := ihc n
      obtain ⟨k, hk⟩ := ihs m
      exact ⟨k, .element hm hk⟩

end Contents

section Reading

variable {body : τ → List (Event τ) → σ → Option (List (Event τ) × σ)}
  {f : σ → Element τ → Option σ}

/-- The body of a loop reads one element, whose start tag has been read. -/
def Reads (body : τ → List (Event τ) → σ → Option (List (Event τ) × σ))
    (f : σ → Element τ → Option σ) : Prop :=
  ∀ tag es children rest s, Content es children rest →
    body tag es s = (f s (.mk tag children)).map (fun s => (rest, s))

/-- A loop whose body reads an element is a fold over the content. -/
theorem Reads.whileStart (h : Reads body f) {es rest : List (Event τ)}
    {elements : List (Element τ)} (hc : Content es elements rest) {rounds : Nat}
    (hrounds : elements.length < rounds) (s : σ) :
    whileStart body rounds es s = (elements.foldlM f s).map (fun s => (rest, s)) := by
  induction hc generalizing rounds s with
  | cut =>
      cases rounds with
      | zero => exact absurd hrounds (by simp)
      | succ rounds => rfl
  | stop es =>
      cases rounds with
      | zero => exact absurd hrounds (by simp)
      | succ rounds => rfl
  | @element tag es inner rest children siblings hchildren _ _ ihs =>
      cases rounds with
      | zero => exact absurd hrounds (by simp)
      | succ rounds =>
          have hbody := h tag es children inner s hchildren
          rw [PullParser.whileStart, readNextStartElement, List.foldlM_cons]
          show (body tag es s).bind _ = _
          rw [hbody]
          cases f s (.mk tag children) with
          | none => rfl
          | some s' => exact ihs (by simpa using hrounds) s'

theorem Reads.loop (h : Reads body f) {es rest : List (Event τ)} {elements : List (Element τ)}
    (hc : Content es elements rest) (s : σ) :
    loop body es s = (elements.foldlM f s).map (fun s => (rest, s)) :=
  h.whileStart hc (Nat.lt_succ_of_le hc.elements_length_le) s

/-- A body that skips its element after a step that looks at the start tag only. -/
theorem reads_skip (g : τ → σ → Option σ) :
    Reads (fun tag es s => (g tag s).map (fun s => (skipCurrentElement es, s)))
      (fun s e => g e.tag s) := by
  intro tag es children rest s hc
  show (g tag s).map (fun s => (skipCurrentElement es, s)) = _
  rw [hc.skip]
  rfl

/-- A body that ignores its element. -/
theorem reads_ignore :
    Reads (fun (_ : τ) es (s : σ) => some (skipCurrentElement es, s)) (fun s _ => some s) := by
  intro tag es children rest s hc
  show some (skipCurrentElement es, s) = _
  rw [hc.skip]
  rfl

/-- A body that depends on the start tag. -/
theorem Reads.ite {body' : τ → List (Event τ) → σ → Option (List (Event τ) × σ)}
    {f' : σ → Element τ → Option σ} (c : τ → Prop) [DecidablePred c] (h : Reads body f)
    (h' : Reads body' f') :
    Reads (fun tag es s => if c tag then body tag es s else body' tag es s)
      (fun s e => if c e.tag then f s e else f' s e) := by
  intro tag es children rest s hc
  show (if c tag then body tag es s else body' tag es s) =
    (if c tag then f s (.mk tag children) else f' s (.mk tag children)).map _
  by_cases hcase : c tag
  · rw [if_pos hcase, if_pos hcase, h tag es children rest s hc]
  · rw [if_neg hcase, if_neg hcase, h' tag es children rest s hc]

/-- A body that is a loop over the elements inside. -/
theorem Reads.inner {ρ : Type} (h : Reads body f) (start : τ → ρ → σ) (finish : τ → ρ → σ → ρ) :
    Reads (fun tag es s => (PullParser.loop body es (start tag s)).map
        (fun r => (r.1, finish tag s r.2)))
      (fun s e => (e.children.foldlM f (start e.tag s)).map (finish e.tag s)) := by
  intro tag es children rest s hc
  show (PullParser.loop body es (start tag s)).map _ =
    ((children.foldlM f (start tag s)).map (finish tag s)).map _
  rw [h.loop hc, Option.map_map, Option.map_map]
  rfl

end Reading

section Folds

variable {α : Type} {f : σ → α → Option σ} {es : List α}

/-- A fold whose steps do not abort. -/
theorem foldlM_isSome (h : ∀ s, ∀ e ∈ es, (f s e).isSome) (s : σ) : (es.foldlM f s).isSome := by
  induction es generalizing s with
  | nil => rfl
  | cons e es ih =>
      obtain ⟨s', hs'⟩ := Option.isSome_iff_exists.mp (h s e (by simp))
      rw [List.foldlM_cons, hs']
      exact ih (fun s d hd => h s d (by simp [hd])) s'

/-- A step that aborts in every state. -/
theorem foldlM_eq_none {e : α} (he : e ∈ es) (h : ∀ s, f s e = none) (s : σ) :
    es.foldlM f s = none := by
  induction es generalizing s with
  | nil => exact absurd he List.not_mem_nil
  | cons d es ih =>
      rw [List.foldlM_cons]
      rcases List.mem_cons.mp he with rfl | he
      · rw [h s]
        rfl
      · cases f s d with
        | none => rfl
        | some s' => exact ih he s'

/-- Steps that change nothing may be left out. -/
theorem foldlM_filter (p : α → Prop) [DecidablePred p]
    (h : ∀ s, ∀ e ∈ es, ¬ p e → f s e = some s) (s : σ) :
    (es.filter p).foldlM f s = es.foldlM f s := by
  induction es generalizing s with
  | nil => rfl
  | cons e es ih =>
      have hrest := fun s => ih (fun s d hd => h s d (by simp [hd])) s
      by_cases hp : p e
      · rw [List.filter_cons_of_pos (by simpa using hp), List.foldlM_cons, List.foldlM_cons]
        exact congrArg (Option.bind (f s e)) (funext hrest)
      · rw [List.filter_cons_of_neg (by simpa using hp), List.foldlM_cons, h s e (by simp) hp]
        exact hrest s

/-- A fold over other elements that make the same steps. -/
theorem foldlM_map_congr {φ : α → α} (h : ∀ s, ∀ e ∈ es, f s (φ e) = f s e) (s : σ) :
    (es.map φ).foldlM f s = es.foldlM f s := by
  induction es generalizing s with
  | nil => rfl
  | cons e es ih =>
      rw [List.map_cons, List.foldlM_cons, List.foldlM_cons, h s e (by simp)]
      exact congrArg (Option.bind (f s e)) (funext (ih fun s d hd => h s d (by simp [hd])))

end Folds

end PullParser
end Lib
end Qutty
