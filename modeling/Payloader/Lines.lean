-- Texts made of lines. A carriage return, a line feed, or the two in a row end a
-- line. The lines up to the first empty one are the head, and a line of the head
-- is a field, with its name in front of a colon and its value behind it.
import Mathlib.Data.List.Flatten
import Payloader.Printing

set_option autoImplicit false

namespace payloader.lines

open payloader.memory payloader.c_strings payloader.printing

variable {a b t p rest body : List UInt8} {ls ms : List (List UInt8)}

/-! ## Lines -/

/-- The lines of a text. The last one has no end, and it may be empty. -/
def pieces : List UInt8 → List (List UInt8)
  | [] => [[]]
  | x :: xs =>
    if x = ch '\n' then [] :: pieces xs
    else if x = ch '\r' then
      -- with a line feed right behind it, that ends the line
      if xs.head? = some (ch '\n') then pieces xs else [] :: pieces xs
    else (pieces xs).modifyHead (x :: ·)

theorem pieces_cons (x : UInt8) (xs : List UInt8) : pieces (x :: xs) =
    if x = ch '\n' then [] :: pieces xs
    else if x = ch '\r' then
      if xs.head? = some (ch '\n') then pieces xs else [] :: pieces xs
    else (pieces xs).modifyHead (x :: ·) := rfl

theorem pieces_ne_nil (t : List UInt8) : pieces t ≠ [] := by
  induction t with
  | nil => exact List.cons_ne_nil _ _
  | cons x xs ih =>
    unfold pieces
    split
    · exact List.cons_ne_nil _ _
    split
    · split
      · exact ih
      · exact List.cons_ne_nil _ _
    · rwa [ne_eq, List.modifyHead_eq_nil_iff]

theorem pieces_crlf_start (b : List UInt8) : pieces (crlf ++ b) = [] :: pieces b := rfl

theorem modifyHead_append {α : Type} (f : α → α) {l : List α} (h : l ≠ []) (m : List α) :
    (l ++ m).modifyHead f = l.modifyHead f ++ m := by
  cases l with
  | nil => exact absurd rfl h
  | cons x xs => rfl

/-- A line end splits the lines of a text. -/
theorem pieces_crlf (a b : List UInt8) : pieces (a ++ (crlf ++ b)) = pieces a ++ pieces b := by
  induction a with
  | nil => rfl
  | cons x xs ih =>
    have hhead : (xs ++ (crlf ++ b)).head? = some (ch '\n') ↔ xs.head? = some (ch '\n') := by
      cases xs with
      | nil => exact iff_of_false (by simp [crlf, bytes, ch]) nofun
      | cons y ys => exact Iff.rfl
    rw [List.cons_append, pieces_cons, pieces_cons]
    simp only [hhead, ih]
    split
    · rfl
    split
    · split <;> rfl
    · exact modifyHead_append _ (pieces_ne_nil xs) _

theorem plain_head (h : Plain a) : a.head? ≠ some (ch '\n') := by
  intro hhead
  exact (h _ (List.mem_of_mem_head? hhead)).2.2 rfl

theorem pieces_plain_append (h : Plain a) (t : List UInt8) :
    pieces (a ++ t) = (pieces t).modifyHead (a ++ ·) := by
  induction a with
  | nil => exact (congrFun List.modifyHead_id (pieces t)).symm
  | cons x xs ih =>
    obtain ⟨hx, hxs⟩ := List.forall_mem_cons.mp h
    rw [List.cons_append, pieces_cons, if_neg hx.2.2, if_neg hx.2.1, ih hxs,
      List.modifyHead_modifyHead]
    rfl

theorem pieces_plain (h : Plain a) : pieces a = [a] := by
  have heq := pieces_plain_append h []
  rwa [List.append_nil, pieces, List.modifyHead_cons, List.append_nil] at heq

/-- What stands behind a text goes on with its last line. -/
theorem pieces_tail (t : List UInt8) : ∃ init last, pieces t = init ++ [last] ∧
    ∀ p, Plain p → pieces (t ++ p) = init ++ [last ++ p] := by
  induction t with
  | nil => exact ⟨[], [], rfl, fun p hp => pieces_plain hp⟩
  | cons x xs ih =>
    obtain ⟨init, last, hxs, htail⟩ := ih
    have hhead : ∀ p, Plain p →
        ((xs ++ p).head? = some (ch '\n') ↔ xs.head? = some (ch '\n')) := by
      intro p hp
      cases xs with
      | nil => exact iff_of_false (plain_head hp) nofun
      | cons y ys => exact Iff.rfl
    by_cases hlf : x = ch '\n'
    · refine ⟨[] :: init, last, ?_, fun p hp => ?_⟩
      · rw [pieces, if_pos hlf, hxs, List.cons_append]
      · rw [List.cons_append, pieces, if_pos hlf, htail p hp, List.cons_append]
    by_cases hcr : x = ch '\r'
    · by_cases hnext : xs.head? = some (ch '\n')
      · refine ⟨init, last, ?_, fun p hp => ?_⟩
        · rw [pieces, if_neg hlf, if_pos hcr, if_pos hnext, hxs]
        · rw [List.cons_append, pieces, if_neg hlf, if_pos hcr, if_pos ((hhead p hp).mpr hnext),
            htail p hp]
      · refine ⟨[] :: init, last, ?_, fun p hp => ?_⟩
        · rw [pieces, if_neg hlf, if_pos hcr, if_neg hnext, hxs, List.cons_append]
        · rw [List.cons_append, pieces, if_neg hlf, if_pos hcr,
            if_neg (fun h => hnext ((hhead p hp).mp h)), htail p hp, List.cons_append]
    · have hmore : ∀ q, pieces (xs ++ q) = init ++ [last ++ q] →
          pieces (x :: (xs ++ q)) = (init ++ [last ++ q]).modifyHead (x :: ·) := by
        intro q hq
        rw [pieces, if_neg hlf, if_neg hcr, hq]
      cases init with
      | nil =>
        refine ⟨[], x :: last, ?_, fun p hp => ?_⟩
        · rw [pieces, if_neg hlf, if_neg hcr, hxs]
          rfl
        · exact hmore p (htail p hp)
      | cons l init =>
        refine ⟨(x :: l) :: init, last, ?_, fun p hp => ?_⟩
        · rw [pieces, if_neg hlf, if_neg hcr, hxs]
          rfl
        · exact hmore p (htail p hp)

/-- The lines of the start of a text are those of the text, but for the last. -/
theorem pieces_prefix (h : a <+: b) : ∃ init last last' more, pieces a = init ++ [last] ∧
    pieces b = init ++ last' :: more ∧ last <+: last' := by
  induction a generalizing b with
  | nil =>
    obtain ⟨l, more, hb⟩ := List.exists_cons_of_ne_nil (pieces_ne_nil b)
    exact ⟨[], [], l, more, rfl, hb, List.nil_prefix⟩
  | cons x xs ih =>
    obtain ⟨t, rfl⟩ := h
    rw [List.cons_append]
    obtain ⟨init, last, last', more, hxs, hb, hlast⟩ := ih (List.prefix_append xs t)
    by_cases hlf : x = ch '\n'
    · refine ⟨[] :: init, last, last', more, ?_, ?_, hlast⟩
      · rw [pieces, if_pos hlf, hxs, List.cons_append]
      · rw [pieces, if_pos hlf, hb, List.cons_append]
    by_cases hcr : x = ch '\r'
    · rw [pieces, if_neg hlf, if_pos hcr, pieces, if_neg hlf, if_pos hcr]
      cases xs with
      | nil =>
        -- the line feed behind it may be cut off
        by_cases hnext : t.head? = some (ch '\n')
        · obtain ⟨ys, rfl⟩ : ∃ ys, t = ch '\n' :: ys := List.head?_eq_some_iff.mp hnext
          obtain ⟨l, more', hys⟩ := List.exists_cons_of_ne_nil (pieces_ne_nil ys)
          refine ⟨[[]], [], l, more', rfl, ?_, List.nil_prefix⟩
          rw [List.nil_append, if_pos hnext, pieces, if_pos rfl, hys]
          rfl
        · rw [List.nil_append, if_neg hnext, if_neg nofun]
          refine ⟨[] :: init, last, last', more, ?_, ?_, hlast⟩
          · rw [hxs, List.cons_append]
          · rw [← List.nil_append t, hb, List.cons_append]
      | cons y ys =>
        rw [List.cons_append] at hb ⊢
        rw [List.head?_cons, List.head?_cons]
        by_cases hnext : some y = some (ch '\n')
        · rw [if_pos hnext, if_pos hnext]
          exact ⟨init, last, last', more, hxs, hb, hlast⟩
        · rw [if_neg hnext, if_neg hnext]
          exact ⟨[] :: init, last, last', more, congrArg _ hxs, congrArg _ hb, hlast⟩
    · rw [pieces, if_neg hlf, if_neg hcr, pieces, if_neg hlf, if_neg hcr, hxs, hb]
      cases init with
      | nil =>
        exact ⟨[], x :: last, x :: last', more, rfl, rfl, List.cons_prefix_cons.mpr ⟨rfl, hlast⟩⟩
      | cons l init => exact ⟨(x :: l) :: init, last, last', more, rfl, rfl, hlast⟩

/-- The bytes of the lines are bytes of the text, in their order. -/
theorem pieces_flatten (t : List UInt8) : (pieces t).flatten.Sublist t := by
  induction t with
  | nil => exact List.Sublist.refl _
  | cons x xs ih =>
    rw [pieces_cons]
    split
    · exact ih.cons x
    split
    · split
      · exact ih.cons x
      · exact ih.cons x
    · obtain ⟨l, more, hxs⟩ := List.exists_cons_of_ne_nil (pieces_ne_nil xs)
      rw [hxs] at ih ⊢
      exact ih.cons_cons x

theorem mem_of_pieces {l : List UInt8} {x : UInt8} (hl : l ∈ pieces t) (hx : x ∈ l) : x ∈ t :=
  (pieces_flatten t).subset (List.mem_flatten_of_mem hl hx)

/-! ## Heads -/

/-- A text of these lines, each with its end. -/
def Ended (t : List UInt8) (ls : List (List UInt8)) : Prop :=
  ∃ head, t = head ++ crlf ∧ pieces head = ls

theorem ended_text (t : List UInt8) : Ended (t ++ crlf) (pieces t) := ⟨t, rfl, rfl⟩

theorem ended_line (h : Plain a) : Ended (a ++ crlf) [a] := ⟨a, rfl, pieces_plain h⟩

theorem Ended.append (h : Ended a ls) (h' : Ended b ms) : Ended (a ++ b) (ls ++ ms) := by
  obtain ⟨head, rfl, rfl⟩ := h
  obtain ⟨head', rfl, rfl⟩ := h'
  refine ⟨head ++ (crlf ++ head'), ?_, pieces_crlf head head'⟩
  simp only [List.append_assoc]

theorem ended_lined (h : ∀ l ∈ ls, Plain l) (hne : ls ≠ []) : Ended (lined ls) ls := by
  induction ls with
  | nil => exact absurd rfl hne
  | cons l ls ih =>
    obtain ⟨hl, hls⟩ := List.forall_mem_cons.mp h
    cases ls with
    | nil =>
      have hone : lined [l] = l ++ crlf := List.append_nil _
      rw [hone]
      exact ended_line hl
    | cons m ms => exact (ended_line hl).append (ih hls (List.cons_ne_nil _ _))

theorem Ended.pieces_append (h : Ended a ls) (t : List UInt8) :
    pieces (a ++ t) = ls ++ pieces t := by
  obtain ⟨head, rfl, rfl⟩ := h
  rw [List.append_assoc]
  exact pieces_crlf head t

/-- These lines, an empty one, and then the rest. -/
structure Head (ls : List (List UInt8)) (text rest : List UInt8) : Prop where
  filled : ∀ l ∈ ls, l ≠ []
  ended : ∃ head, Ended head ls ∧ text = head ++ (crlf ++ rest)

theorem Ended.head (h : Ended a ls) (hfilled : ∀ l ∈ ls, l ≠ []) (rest : List UInt8) :
    Head ls (a ++ (crlf ++ rest)) rest := ⟨hfilled, a, h, rfl⟩

theorem Head.pieces_eq (h : Head ls t rest) : pieces t = ls ++ [] :: pieces rest := by
  obtain ⟨head, hended, rfl⟩ := h.ended
  rw [hended.pieces_append]
  rfl

/-- What stands before the first empty line, and behind it. -/
theorem before_empty {α : Type} {xs ys xs' ys' : List (List α)} (h : ∀ l ∈ xs, l ≠ [])
    (h' : ∀ l ∈ ys, l ≠ []) (heq : xs ++ [] :: xs' = ys ++ [] :: ys') : xs = ys ∧ xs' = ys' := by
  induction xs generalizing ys with
  | nil =>
    cases ys with
    | nil => exact ⟨rfl, (List.cons.inj heq).2⟩
    | cons y ys => exact absurd (List.cons.inj heq).1.symm (h' y List.mem_cons_self)
  | cons x xs ih =>
    cases ys with
    | nil => exact absurd (List.cons.inj heq).1 (h x List.mem_cons_self)
    | cons y ys =>
      obtain ⟨rfl, hrest⟩ := List.cons.inj heq
      obtain ⟨rfl, hbehind⟩ := ih (fun l hl => h l (List.mem_cons_of_mem _ hl))
        (fun l hl => h' l (List.mem_cons_of_mem _ hl)) hrest
      exact ⟨rfl, hbehind⟩

/-- A text has one head. -/
theorem Head.unique (h : Head ls t rest) (h' : Head ms t b) : ls = ms :=
  (before_empty h.filled h'.filled (h.pieces_eq.symm.trans h'.pieces_eq)).1

/-- Lines with no empty one behind them are no head. -/
theorem Ended.no_head (h : Ended t ls) (hfilled : ∀ l ∈ ls, l ≠ []) : ¬ Head ms t rest := by
  intro hhead
  have hpieces := h.pieces_append []
  rw [List.append_nil, hhead.pieces_eq] at hpieces
  exact pieces_ne_nil rest (before_empty hhead.filled hfilled hpieces).2

/-- Where the head of a text ends that has unknown lines among its own: at an empty
one of them, or behind them all. -/
theorem Ended.head_around {as bs : List (List UInt8)} (h : Ended a (as ++ ms ++ bs))
    (has : ∀ l ∈ as, l ≠ []) (hbs : ∀ l ∈ bs, l ≠ []) (hhead : Head ls (a ++ (crlf ++ b)) rest) :
    ([] ∈ ms ∧ ∃ after, pieces rest = after ++ bs ++ [] :: pieces b) ∨
      ([] ∉ ms ∧ ls = as ++ ms ++ bs) := by
  have hpieces := h.pieces_append (crlf ++ b)
  rw [hhead.pieces_eq, pieces_crlf_start] at hpieces
  by_cases hempty : [] ∈ ms
  · obtain ⟨before, after, rfl, hbefore⟩ := List.eq_append_cons_of_mem hempty
    have hsplit : ls ++ [] :: pieces rest =
        (as ++ before) ++ [] :: (after ++ bs ++ [] :: pieces b) := by
      rw [hpieces]
      simp only [List.append_assoc, List.cons_append]
    have hfilled : ∀ l ∈ as ++ before, l ≠ [] := by
      intro l hl
      rcases List.mem_append.mp hl with hl | hl
      · exact has l hl
      · rintro rfl
        exact hbefore hl
    exact .inl ⟨hempty, after, (before_empty hhead.filled hfilled hsplit).2⟩
  · have hfilled : ∀ l ∈ as ++ ms ++ bs, l ≠ [] := by
      intro l hl
      simp only [List.mem_append] at hl
      rcases hl with (hl | hl) | hl
      · exact has l hl
      · rintro rfl
        exact hempty hl
      · exact hbs l hl
    exact .inr ⟨hempty, (before_empty hhead.filled hfilled hpieces).1⟩

/-! ## Fields -/

def blank (x : UInt8) : Bool := x = ch ' ' ∨ x = ch '\t'

/-- The text without the blanks at its ends. -/
def trim (text : List UInt8) : List UInt8 :=
  ((text.dropWhile blank).reverse.dropWhile blank).reverse

def lower (x : UInt8) : UInt8 := if ch 'A' ≤ x ∧ x ≤ ch 'Z' then x + 32 else x

/-- The parts of a text before and after a separator. -/
def nameOf (sep : Char) (text : List UInt8) : List UInt8 :=
  (trim (text.takeWhile (· ≠ ch sep))).map lower

def valueOf (sep : Char) (text : List UInt8) : List UInt8 :=
  trim ((text.dropWhile (· ≠ ch sep)).drop 1)

/-- A line with a field of this name, in any case. One that starts with a blank
goes on with the line before it. -/
def Names (name line : List UInt8) : Prop :=
  line.head?.any blank = false ∧ ch ':' ∈ line ∧ nameOf ':' line = name

instance (name line : List UInt8) : Decidable (Names name line) :=
  inferInstanceAs (Decidable (_ ∧ _))

/-- Only what stands up to the colon counts. -/
theorem names_append {name line : List UInt8} (h : ch ':' ∈ line) (t : List UInt8) :
    Names name (line ++ t) ↔ Names name line := by
  have hhead : (line ++ t).head? = line.head? := by
    cases line with
    | nil => cases h
    | cons x xs => rfl
  have htake : (line ++ t).takeWhile (· ≠ ch ':') = line.takeWhile (· ≠ ch ':') := by
    apply takeWhile_append_stop
    intro hall
    have hcolon := List.dropWhile_eq_nil_iff.mp hall _ h
    simp at hcolon
  unfold Names nameOf
  rw [hhead, htake]
  exact and_congr_right fun _ => and_congr_left fun _ =>
    iff_of_true (List.mem_append_left t h) h

theorem names_tail {name line : List UInt8} (h : ch ':' ∉ t) :
    Names name (line ++ t) ↔ Names name line := by
  by_cases hline : ch ':' ∈ line
  · exact names_append hline t
  · refine iff_of_false (fun hnames => ?_) (fun hnames => hline hnames.2.1)
    rcases List.mem_append.mp hnames.2.1 with hin | hin
    · exact hline hin
    · exact h hin

theorem names_prefix {name line : List UInt8} (h : a <+: line) (hnames : Names name a) :
    Names name line := by
  obtain ⟨t, rfl⟩ := h
  exact (names_append hnames.2.1 t).mpr hnames

/-- What is named in the start of a text is named in the text. -/
theorem names_in_prefix {name : List UInt8} (h : a <+: b) {l : List UInt8} (hl : l ∈ pieces a)
    (hnames : Names name l) : ∃ l ∈ pieces b, Names name l := by
  obtain ⟨init, last, last', more, ha, hb, hlast⟩ := pieces_prefix h
  rw [ha] at hl
  rw [hb]
  rcases List.mem_append.mp hl with hin | hin
  · exact ⟨l, List.mem_append_left _ hin, hnames⟩
  · obtain rfl := List.mem_singleton.mp hin
    exact ⟨last', List.mem_append_right _ List.mem_cons_self, names_prefix hlast hnames⟩

/-- A line that starts with a blank goes on with the line before it. -/
def unfolded : List (List UInt8) → List (List UInt8)
  | [] => []
  | line :: lines =>
    match unfolded lines with
    | [] => [line]
    | next :: rest =>
      if next.head?.any blank then (line ++ next) :: rest else line :: next :: rest

/-- The fields of a text: after the first line, and before the first empty one. A
line with no end is none. -/
def fieldsOf (text : List UInt8) : List (List UInt8) :=
  (unfolded ((pieces text).dropLast.takeWhile (· ≠ []))).tail

theorem unfolded_flatten (ls : List (List UInt8)) : (unfolded ls).flatten = ls.flatten := by
  induction ls with
  | nil => rfl
  | cons l ls ih =>
    unfold unfolded
    rw [List.flatten_cons, ← ih]
    rcases unfolded ls with _ | ⟨next, rest⟩
    · rfl
    · simp only
      split
      · simp
      · rfl

theorem fieldsOf_length (text : List UInt8) : (fieldsOf text).flatten.length ≤ text.length := by
  have hhead := (List.takeWhile_prefix (l := (pieces text).dropLast)
    (fun l => decide (l ≠ []))).sublist.trans (List.dropLast_sublist _)
  have htail := (List.tail_sublist
    (unfolded ((pieces text).dropLast.takeWhile (fun l => decide (l ≠ []))))).flatten.length_le
  rw [unfolded_flatten] at htail
  exact htail.trans (hhead.flatten.length_le.trans (pieces_flatten text).length_le)

theorem mem_trim {x : UInt8} (h : x ∈ t) (hx : blank x = false) : x ∈ trim t := by
  have hkept : ∀ l : List UInt8, x ∈ l → x ∈ l.dropWhile blank := by
    intro l hl
    rw [← List.takeWhile_append_dropWhile (p := blank) (l := l), List.mem_append] at hl
    refine hl.resolve_left (fun hin => ?_)
    rw [List.mem_takeWhile_imp hin] at hx
    cases hx
  unfold trim
  rw [List.mem_reverse]
  exact hkept _ (List.mem_reverse.mpr (hkept t h))

theorem trim_eq_self (h : ∀ x ∈ t, blank x = false) : trim t = t := by
  have hself : ∀ l : List UInt8, (∀ x ∈ l, blank x = false) → l.dropWhile blank = l := by
    intro l hl
    cases l with
    | nil => rfl
    | cons x xs => exact List.dropWhile_cons_of_neg (by simp [hl x List.mem_cons_self])
  unfold trim
  rw [hself t h, hself _ (fun x hx => h x (List.mem_reverse.mp hx)), List.reverse_reverse]

theorem trim_length (text : List UInt8) : (trim text).length ≤ text.length := by
  unfold trim
  rw [List.length_reverse]
  refine (List.dropWhile_suffix _).length_le.trans ?_
  rw [List.length_reverse]
  exact (List.dropWhile_suffix _).length_le

end payloader.lines
