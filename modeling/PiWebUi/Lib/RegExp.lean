/-
  PiWebUi.Lib.RegExp — regular expressions of the language, as its matcher reads them.

  A match stands at a place of the text and leads to other places. `Pattern.ends` gives
  those in the order a backtracking matcher tries them, so that the first is the one it
  takes. `exec` takes the leftmost match, `scan` cuts a text into the units a global
  replacement keeps and the stretches it replaces. Whatever a pattern does, it reads on
  from its place (`reaches_of_mem_ends`), so a text is always what was before a match, the
  match and what is after it (`exec_spec`, `text_scan`).
-/

import PiWebUi.Lib.JsText
import Mathlib.Logic.Function.Basic

namespace PiWebUi.Lib.RegExp

open List Option

/-! ## Patterns -/

inductive Pattern
  | empty
  /-- A unit, or a class of them. -/
  | unit (holds : UInt16 → Bool)
  | seq (p q : Pattern)
  | alt (p q : Pattern)
  | star (p : Pattern)
  /-- `(?=p)` -/
  | ahead (p : Pattern)
  | start
  | finish
  /-- `\b` -/
  | boundary
  | group (n : ℕ) (p : Pattern)
  /-- `\n`, the units compared as `fold` gives them. -/
  | back (fold : UInt16 → UInt16) (n : ℕ)

/-- The lower case of an ASCII letter. -/
def lower (u : UInt16) : UInt16 := if 65 ≤ u && u ≤ 90 then u + 32 else u

def isWordUnit (u : UInt16) : Bool := isDigit u || (65 ≤ u && u ≤ 90) || (97 ≤ u && u ≤ 122) || u = 95

namespace Pattern

def cat (ps : List Pattern) : Pattern := ps.foldr seq empty

/-- One of the patterns, the first tried first. -/
def oneOf : List Pattern → Pattern
  | [] => unit fun _ => false
  | [p] => p
  | p :: ps => alt p (oneOf ps)

/-- `p?` -/
def opt (p : Pattern) : Pattern := alt p empty

/-- `p+` -/
def plus (p : Pattern) : Pattern := seq p (star p)

/-- A class, whose units are given as a text. -/
def among (units : String) : Pattern := unit fun u => (js units).contains u

/-- The text, in any case: `u` matches where its lower case is that of the text. -/
def word (text : String) : Pattern := cat ((js text).map fun v => unit fun u => lower u = lower v)

/-- `\s` -/
def space : Pattern := unit isWhiteSpace

/-- `\S` -/
def visible : Pattern := unit (!isWhiteSpace ·)

/-- The pattern writes the group. -/
def writes (n : ℕ) : Pattern → Bool
  | seq p q | alt p q => p.writes n || q.writes n
  | star p | ahead p => p.writes n
  | group m p => m = n || p.writes n
  | empty | unit _ | start | finish | boundary | back _ _ => false

end Pattern

/-! ## Matching -/

/-- A place in a text: the units before it, the nearest first, and those after it. -/
structure Place where
  before : JsString
  after : JsString
  groups : ℕ → JsString := fun _ => []

namespace Place

/-- Before the unit of the index. -/
def atIndex (text : JsString) (i : ℕ) : Place := { before := (text.take i).reverse, after := text.drop i }

/-- So many units on. -/
def skip (x : Place) (k : ℕ) : Place := { x with before := (x.after.take k).reverse ++ x.before, after := x.after.drop k }

/-- The units from one place to a later one. -/
def upTo (x y : Place) : JsString := x.after.take (x.after.length - y.after.length)

/-- `y` is `x` or stands after it in the same text. -/
def Reaches (x y : Place) : Prop := ∃ m, x.after = m ++ y.after ∧ y.before = m.reverse ++ x.before

end Place

/-- Rounds of `f` that get on, as many as there are, then fewer. -/
def rounds (f : Place → List Place) : ℕ → Place → List Place
  | 0, x => [x]
  | n + 1, x => ((f x).filter fun y => y.after.length < x.after.length).flatMap (rounds f n) ++ [x]

/-- Where a match of the pattern ends that starts at the place, in the order they are tried. -/
def Pattern.ends : Pattern → Place → List Place
  | empty, x => [x]
  | unit holds, x =>
    match x.after with
    | [] => []
    | u :: _ => if holds u then [x.skip 1] else []
  | seq p q, x => (p.ends x).flatMap q.ends
  | alt p q, x => p.ends x ++ q.ends x
  | star p, x => rounds p.ends x.after.length x
  | ahead p, x => ((p.ends x).head?.map fun y => { x with groups := y.groups }).toList
  | start, x => if x.before = [] then [x] else []
  | finish, x => if x.after = [] then [x] else []
  | boundary, x => if x.before.head?.any isWordUnit != x.after.head?.any isWordUnit then [x] else []
  | group n p, x => (p.ends x).map fun y => { y with groups := Function.update y.groups n (x.upTo y) }
  | back fold n, x =>
    let taken := x.groups n
    if (x.after.take taken.length).map fold = taken.map fold then [x.skip taken.length] else []

def Pattern.matchAt (p : Pattern) (x : Place) : Option Place := (p.ends x).head?

structure Found where
  before : JsString
  text : JsString
  after : JsString
  deriving DecidableEq

/-- `p.exec(text)`: the leftmost match. -/
def Pattern.exec (p : Pattern) (text : JsString) : Option Found :=
  (List.range (text.length + 1)).findSome? fun i =>
    (p.matchAt (.atIndex text i)).map fun y => { before := text.take i, text := (Place.atIndex text i).upTo y, after := y.after }

/-- The groups of the leftmost match. -/
def Pattern.captures (p : Pattern) (text : JsString) : Option (ℕ → JsString) :=
  (List.range (text.length + 1)).findSome? fun i => (p.matchAt (.atIndex text i)).map (·.groups)

inductive Segment
  | kept (u : UInt16)
  | found (text : JsString) (groups : ℕ → JsString)

def Segment.text : Segment → JsString
  | kept u => [u]
  | found text _ => text

/-- The segments of the text from the place on; a match of nothing is passed by one unit. -/
def Pattern.scan (p : Pattern) : ℕ → Place → List Segment
  | 0, x => x.after.map .kept
  | n + 1, x =>
    match p.matchAt x with
    | some y =>
      if y.after.length < x.after.length then .found (x.upTo y) y.groups :: p.scan n { y with groups := fun _ => [] }
      else .found [] y.groups :: (match x.after with
        | [] => []
        | u :: _ => .kept u :: p.scan n (x.skip 1))
    | none =>
      match x.after with
      | [] => []
      | u :: _ => .kept u :: p.scan n (x.skip 1)

def Pattern.segments (p : Pattern) (text : JsString) : List Segment := p.scan (text.length + 1) (.atIndex text 0)

/-- What a replacement puts in a segment's place, and what it writes down. -/
def Segment.replaced (f : JsString → (ℕ → JsString) → JsString × List JsString) : Segment → JsString × List JsString
  | kept u => ([u], [])
  | found text groups => f text groups

/-- `text.replace(p, f)` of a global `p`, whose `f` also writes down what it takes out. -/
def Pattern.replace (p : Pattern) (f : JsString → (ℕ → JsString) → JsString × List JsString) (text : JsString) :
    JsString × List JsString :=
  let pieces := (p.segments text).map (Segment.replaced f)
  (pieces.flatMap (·.1), pieces.flatMap (·.2))

/-! ## Places -/

namespace Place

variable {x y z : Place}

theorem Reaches.refl (x : Place) : x.Reaches x := ⟨[], rfl, rfl⟩

theorem Reaches.trans (h : x.Reaches y) (h' : y.Reaches z) : x.Reaches z := by
  obtain ⟨m, hm, hb⟩ := h
  obtain ⟨k, hk, hb'⟩ := h'
  refine ⟨m ++ k, ?_, ?_⟩
  · rw [hm, hk, append_assoc]
  · rw [hb', hb, reverse_append, append_assoc]

theorem reaches_skip (x : Place) (k : ℕ) : x.Reaches (x.skip k) :=
  ⟨x.after.take k, (take_append_drop k x.after).symm, rfl⟩

theorem Reaches.upTo_append (h : x.Reaches y) : x.upTo y ++ y.after = x.after := by
  obtain ⟨m, hm, -⟩ := h
  have hlength : x.after.length - y.after.length = m.length := by
    rw [hm, length_append]
    omega
  rw [upTo, hlength, hm, take_left]

theorem Reaches.upTo_trans (h : x.Reaches y) (h' : y.Reaches z) : x.upTo z = x.upTo y ++ y.upTo z := by
  have hwhole : x.upTo z ++ z.after = (x.upTo y ++ y.upTo z) ++ z.after := by
    rw [(h.trans h').upTo_append, append_assoc, h'.upTo_append, h.upTo_append]
  exact append_cancel_right hwhole

/-- Only units of the class stand between the places. -/
def Spans (c : UInt16 → Bool) (x y : Place) : Prop := ∃ m, x.after = m ++ y.after ∧ ∀ u ∈ m, c u = true

theorem Spans.refl (c : UInt16 → Bool) (x : Place) : x.Spans c x := by
  refine ⟨[], rfl, ?_⟩
  intro u hu
  cases hu

theorem Spans.trans {c : UInt16 → Bool} (x y z : Place) (h : x.Spans c y) (h' : y.Spans c z) : x.Spans c z := by
  obtain ⟨m, hm, hall⟩ := h
  obtain ⟨k, hk, hall'⟩ := h'
  refine ⟨m ++ k, by rw [hm, hk, append_assoc], ?_⟩
  intro u hu
  exact (mem_append.mp hu).elim (hall u) (hall' u)

end Place

/-! ## What every match does

`p.Within R`: each match of `p` leads from its place to one that is in relation `R` to it.
-/

def Pattern.Within (p : Pattern) (R : Place → Place → Prop) : Prop := ∀ x y, y ∈ p.ends x → R x y

section

variable {p q : Pattern} {x y : Place} {R : Place → Place → Prop}

theorem within_if {c : Place → Prop} [DecidablePred c] {f : Place → Place} (hf : ∀ x, R x (f x)) :
    ∀ x y, y ∈ (if c x then [f x] else []) → R x y := by
  intro x y hy
  split at hy
  · rw [mem_singleton.mp hy]
    exact hf x
  · cases hy

theorem within_unit {holds : UInt16 → Bool} (h : ∀ x u r, x.after = u :: r → holds u = true → R x (x.skip 1)) :
    (Pattern.unit holds).Within R := by
  intro x y hy
  simp only [Pattern.ends] at hy
  split at hy
  · cases hy
  next u r hafter =>
    split at hy
    · rename_i hu
      rw [mem_singleton.mp hy]
      exact h x u r hafter hu
    · cases hy

variable (hrefl : ∀ x, R x x) (htrans : ∀ x y z, R x y → R y z → R x z)

include hrefl in
theorem within_empty : Pattern.empty.Within R := by
  intro x y hy
  rw [mem_singleton.mp hy]
  exact hrefl x

include hrefl in
theorem within_boundary : Pattern.boundary.Within R := within_if (f := id) hrefl

include htrans in
theorem Pattern.Within.seq (hp : p.Within R) (hq : q.Within R) : (Pattern.seq p q).Within R := by
  intro x y hy
  obtain ⟨z, hz, hy⟩ := mem_flatMap.mp hy
  exact htrans x z y (hp x z hz) (hq z y hy)

theorem Pattern.Within.alt (hp : p.Within R) (hq : q.Within R) : (Pattern.alt p q).Within R := by
  intro x y hy
  exact (mem_append.mp hy).elim (hp x y) (hq x y)

include hrefl htrans in
theorem within_rounds (hp : p.Within R) (n : ℕ) : ∀ x y, y ∈ rounds p.ends n x → R x y := by
  induction n with
  | zero =>
    intro x y hy
    rw [mem_singleton.mp hy]
    exact hrefl x
  | succ n ih =>
    intro x y hy
    rcases mem_append.mp hy with hy | hy
    · obtain ⟨z, hz, hy⟩ := mem_flatMap.mp hy
      exact htrans x z y (hp x z (mem_filter.mp hz).1) (ih z y hy)
    · rw [mem_singleton.mp hy]
      exact hrefl x

include hrefl htrans in
theorem Pattern.Within.star (hp : p.Within R) : (Pattern.star p).Within R := fun x => within_rounds hrefl htrans hp _ x

include hrefl htrans in
theorem Pattern.Within.plus (hp : p.Within R) : p.plus.Within R := hp.seq htrans (hp.star hrefl htrans)

end

theorem spans_unit (c : UInt16 → Bool) : (Pattern.unit c).Within (Place.Spans c) := by
  refine within_unit fun x u r hafter hu => ⟨[u], ?_, ?_⟩
  · rw [Place.skip, hafter]
    rfl
  · intro v hv
    rwa [mem_singleton.mp hv]

theorem spans_plus (c : UInt16 → Bool) : (Pattern.unit c).plus.Within (Place.Spans c) :=
  (spans_unit c).plus (Place.Spans.refl c) Place.Spans.trans

section

variable {p q : Pattern} {x y : Place}

/-- A match reads on. -/
theorem reaches_of_mem_ends (p : Pattern) : p.Within Place.Reaches := by
  have hrefl := Place.Reaches.refl
  have htrans (x y z : Place) (h : x.Reaches y) (h' : y.Reaches z) : x.Reaches z := h.trans h'
  induction p with
  | empty => exact within_empty hrefl
  | unit holds => exact within_unit fun x _ _ _ _ => x.reaches_skip 1
  | seq p q ihp ihq => exact ihp.seq htrans ihq
  | alt p q ihp ihq => exact ihp.alt ihq
  | star p ih => exact ih.star hrefl htrans
  | ahead p _ =>
    intro x y hy
    obtain ⟨z, -, rfl⟩ := map_eq_some_iff.mp (mem_toList.mp hy)
    exact ⟨[], rfl, rfl⟩
  | start | finish => exact within_if (f := id) hrefl
  | boundary => exact within_boundary hrefl
  | group n p ih =>
    intro x y hy
    obtain ⟨z, hz, rfl⟩ := mem_map.mp hy
    exact ih x z hz
  | back fold n => exact within_if fun x => x.reaches_skip _

theorem reaches_of_matchAt (h : p.matchAt x = some y) : x.Reaches y :=
  reaches_of_mem_ends p x y (mem_of_head? h)

/-- A pattern leaves the groups it does not write. -/
theorem groups_of_mem_ends {n : ℕ} (p : Pattern) (hn : p.writes n = false) : p.Within fun x y => y.groups n = x.groups n := by
  have hrefl (x : Place) : x.groups n = x.groups n := rfl
  have htrans (x y z : Place) (h : y.groups n = x.groups n) (h' : z.groups n = y.groups n) : z.groups n = x.groups n :=
    h'.trans h
  induction p with
  | empty => exact within_empty hrefl
  | unit holds => exact within_unit fun _ _ _ _ _ => rfl
  | seq p q ihp ihq =>
    rw [Pattern.writes, Bool.or_eq_false_iff] at hn
    exact (ihp hn.1).seq htrans (ihq hn.2)
  | alt p q ihp ihq =>
    rw [Pattern.writes, Bool.or_eq_false_iff] at hn
    exact (ihp hn.1).alt (ihq hn.2)
  | star p ih => exact (ih hn).star hrefl htrans
  | ahead p ih =>
    intro x y hy
    obtain ⟨z, hz, rfl⟩ := map_eq_some_iff.mp (mem_toList.mp hy)
    exact ih hn x z (mem_of_head? hz)
  | start | finish => exact within_if (f := id) hrefl
  | boundary => exact within_boundary hrefl
  | group m p ih =>
    rw [Pattern.writes, Bool.or_eq_false_iff, decide_eq_false_iff_not] at hn
    intro x y hy
    obtain ⟨z, hz, rfl⟩ := mem_map.mp hy
    show Function.update z.groups m (x.upTo z) n = _
    rw [Function.update_of_ne (Ne.symm hn.1)]
    exact ih hn.2 x z hz
  | back fold m => exact within_if (R := fun x y => y.groups n = x.groups n) fun _ => rfl

/-- What a pattern of units of a class takes are units of the class. -/
theorem forall_mem_of_spans {c : UInt16 → Bool} (hp : p.Within (Place.Spans c)) (hy : y ∈ p.ends x) :
    ∀ u ∈ x.upTo y, c u = true := by
  obtain ⟨m, hm, hall⟩ := hp x y hy
  have hupTo : x.upTo y = m := by
    have h : x.upTo y ++ y.after = m ++ y.after := by
      rw [(reaches_of_mem_ends _ x y hy).upTo_append, hm]
    exact append_cancel_right h
  rwa [hupTo]

theorem mem_ends_of_boundary (hy : y ∈ (Pattern.seq .boundary p).ends x) : y ∈ p.ends x := by
  obtain ⟨z, hz, hy⟩ := mem_flatMap.mp hy
  have hzx : z = x := within_boundary (R := fun x z => z = x) (fun _ => rfl) x z hz
  rwa [hzx] at hy

/-- A match that begins with a group begins with what the group took. -/
theorem upTo_of_group {n : ℕ} (hn : q.writes n = false) (hy : y ∈ (Pattern.seq (.group n p) q).ends x) :
    ∃ rest, x.upTo y = y.groups n ++ rest := by
  obtain ⟨_, hgroup, hrest⟩ := mem_flatMap.mp hy
  obtain ⟨z, hz, rfl⟩ := mem_map.mp hgroup
  have hgroups : y.groups n = x.upTo z := by
    rw [groups_of_mem_ends q hn _ y hrest]
    exact Function.update_self n (x.upTo z) z.groups
  have hfrom := reaches_of_mem_ends q _ y hrest
  refine ⟨z.upTo y, ?_⟩
  rw [hgroups]
  exact (reaches_of_mem_ends p x z hz).upTo_trans (z := y) hfrom

/-- A match that ends with a group ends with what the group took. -/
theorem upTo_of_last_group {n : ℕ} (hy : y ∈ (Pattern.seq p (.seq (.group n q) .empty)).ends x) :
    ∃ z, z ∈ p.ends x ∧ x.upTo y = x.upTo z ++ y.groups n := by
  obtain ⟨z, hz, hy⟩ := mem_flatMap.mp hy
  obtain ⟨_, hgroup, hy⟩ := mem_flatMap.mp hy
  rw [mem_singleton.mp hy]
  obtain ⟨w, hw, rfl⟩ := mem_map.mp hgroup
  have hlast : Function.update w.groups n (z.upTo w) n = z.upTo w := Function.update_self n _ _
  refine ⟨z, hz, ?_⟩
  show x.upTo w = x.upTo z ++ Function.update w.groups n (z.upTo w) n
  rw [hlast]
  exact (reaches_of_mem_ends p x z hz).upTo_trans (reaches_of_mem_ends q z w hw)

/-- A match of a pattern that ends with `$` ends with the text. -/
theorem after_of_finish (hy : y ∈ (Pattern.seq p (.seq .finish .empty)).ends x) : y.after = [] := by
  obtain ⟨z, -, hy⟩ := mem_flatMap.mp hy
  obtain ⟨z', hz', hy⟩ := mem_flatMap.mp hy
  rw [mem_singleton.mp hy]
  simp only [Pattern.ends] at hz'
  split at hz'
  · rename_i hafter
    rwa [mem_singleton.mp hz']
  · cases hz'

end

/-! ## Searches and replacements -/

section

variable {p : Pattern} {text : JsString} {f : Found}

theorem exec_spec (h : p.exec text = some f) :
    ∃ i y, p.matchAt (.atIndex text i) = some y ∧ f = ⟨text.take i, (Place.atIndex text i).upTo y, y.after⟩ := by
  obtain ⟨i, -, hi⟩ := exists_of_findSome?_eq_some h
  obtain ⟨y, hy, rfl⟩ := map_eq_some_iff.mp hi
  exact ⟨i, y, hy, rfl⟩

theorem exec_append (h : p.exec text = some f) : f.before ++ (f.text ++ f.after) = text := by
  obtain ⟨i, y, hy, rfl⟩ := exec_spec h
  show text.take i ++ ((Place.atIndex text i).upTo y ++ y.after) = text
  rw [(reaches_of_matchAt hy).upTo_append]
  exact take_append_drop i text

theorem text_kept (units : JsString) : (units.map Segment.kept).flatMap Segment.text = units := by
  induction units with
  | nil => rfl
  | cons u units ih => rw [map_cons, flatMap_cons, ih]; rfl

/-- The segments make up the text. -/
theorem text_scan (p : Pattern) (n : ℕ) : ∀ x, (p.scan n x).flatMap Segment.text = x.after := by
  induction n with
  | zero => exact fun x => text_kept x.after
  | succ n ih =>
    intro x
    have hnext : (match x.after with
        | [] => []
        | u :: _ => Segment.kept u :: p.scan n (x.skip 1)).flatMap Segment.text = x.after := by
      split
      next h => rw [h]; rfl
      next u r h =>
        have hskip : (x.skip 1).after = r := by rw [Place.skip, h]; rfl
        rw [flatMap_cons, ih, hskip, h]
        rfl
    rw [Pattern.scan]
    split
    next y hy =>
      split
      · rw [flatMap_cons, ih]
        exact (reaches_of_matchAt hy).upTo_append
      · rw [flatMap_cons, hnext]
        rfl
    next => exact hnext

theorem text_segments (p : Pattern) (text : JsString) : (p.segments text).flatMap Segment.text = text :=
  text_scan p _ (.atIndex text 0)

/-- A stretch that is replaced is a match. -/
theorem match_of_mem_scan {m : JsString} {groups : ℕ → JsString} (p : Pattern) (n : ℕ) :
    ∀ x, Segment.found m groups ∈ p.scan n x → ∃ x y, y ∈ p.ends x ∧ m = x.upTo y ∧ groups = y.groups := by
  induction n with
  | zero =>
    intro x h
    obtain ⟨u, -, hu⟩ := mem_map.mp h
    cases hu
  | succ n ih =>
    intro x h
    have hnext : Segment.found m groups ∈ (match x.after with
        | [] => []
        | u :: _ => Segment.kept u :: p.scan n (x.skip 1)) → ∃ x y, y ∈ p.ends x ∧ m = x.upTo y ∧ groups = y.groups := by
      intro h
      split at h
      · cases h
      · rcases mem_cons.mp h with h | h
        · cases h
        · exact ih _ h
    rw [Pattern.scan] at h
    split at h
    next y hy =>
      have hmem : y ∈ p.ends x := mem_of_head? hy
      split at h
      · rcases mem_cons.mp h with h | h
        · cases h
          exact ⟨x, y, hmem, rfl, rfl⟩
        · exact ih _ h
      next hlength =>
        rcases mem_cons.mp h with h | h
        · cases h
          refine ⟨x, y, hmem, ?_, rfl⟩
          rw [Place.upTo, Nat.sub_eq_zero_of_le (Nat.le_of_not_lt hlength)]
          rfl
        · exact hnext h
    next => exact hnext h

theorem match_of_mem_segments {m : JsString} {groups : ℕ → JsString} (h : Segment.found m groups ∈ p.segments text) :
    ∃ x y, y ∈ p.ends x ∧ m = x.upTo y ∧ groups = y.groups := match_of_mem_scan p _ _ h

end

end PiWebUi.Lib.RegExp
