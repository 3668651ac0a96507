-- Frames over a channel of pieces. A frame is cut into pieces of at most `k`
-- cells and the last piece has a mark. The reader of the channel collects the
-- payloads in a buffer and hands the buffer over at each mark. The cells may
-- be of any type, so the same facts hold for bytes and for tags of bytes.
import Payloader.Machines
import Mathlib.Data.List.DropRight
import Mathlib.Tactic.Ring

set_option autoImplicit false

namespace payloader.framing

open payloader.memory payloader.machines

variable {α β : Type}

/-! ## Cutting a list -/

/-- How many pieces of at most `k` cells hold `n` cells. -/
def pieceCount (k n : Nat) : Nat := (n + (k - 1)) / k

/-- The `i`-th piece of at most `k` cells. -/
def piece (k : Nat) (l : List α) (i : Nat) : List α := (l.drop (i * k)).take k

def pieces (k : Nat) (l : List α) : List (List α) :=
  (List.range (pieceCount k l.length)).map (piece k l)

theorem pieceCount_pos {k n : Nat} (hk : 0 < k) : 0 < pieceCount k n ↔ 0 < n := by
  unfold pieceCount
  rw [Nat.div_pos_iff]
  omega

/-- Piece `i` starts inside the list exactly when it is one of the pieces. -/
theorem lt_pieceCount_iff {k n i : Nat} (hk : 0 < k) : i < pieceCount k n ↔ i * k < n := by
  unfold pieceCount
  rw [Nat.lt_iff_add_one_le, Nat.le_div_iff_mul_le hk, Nat.add_mul]
  omega

theorem piece_length (k : Nat) (l : List α) (i : Nat) :
    (piece k l i).length = min k (l.length - i * k) := by
  simp [piece]

theorem piece_length_pos {k : Nat} {l : List α} {i : Nat} (hk : 0 < k)
    (h : i < pieceCount k l.length) : 0 < (piece k l i).length := by
  have := (lt_pieceCount_iff hk).mp h
  rw [piece_length]
  omega

/-- The first `m` pieces are the first `m * k` cells. -/
theorem flatten_take_pieces (k : Nat) (l : List α) (m : Nat) :
    ((List.range m).map (piece k l)).flatten = l.take (m * k) := by
  induction m with
  | zero => simp
  | succ m ih =>
    rw [List.range_succ, List.map_append, List.flatten_append, ih, Nat.succ_mul, List.take_add]
    simp [piece]

/-- Nothing is lost and nothing is added by the cut. -/
theorem flatten_pieces {k : Nat} (hk : 0 < k) (l : List α) : (pieces k l).flatten = l := by
  unfold pieces
  rw [flatten_take_pieces]
  apply List.take_of_length_le
  have h := (lt_pieceCount_iff (n := l.length) (i := pieceCount k l.length) hk).not.mp (by omega)
  omega

/-! ## Collecting the pieces -/

/-- A piece of a frame, and whether the mark is on it. -/
structure Piece (α : Type) where
  payload : List α
  last : Bool

/-- One piece comes in: its payload goes after the buffer, and the buffer is
handed over at a mark. -/
def collect (acc : List α) (p : Piece α) : List α × Option (List α) :=
  if p.last then ([], some (acc ++ p.payload)) else (acc ++ p.payload, none)

/-- The buffer after a list of pieces, and what each piece hands over. -/
def collectAll : List α → List (Piece α) → List α × List (Option (List α))
  | acc, [] => (acc, [])
  | acc, p :: ps =>
    ((collectAll (collect acc p).1 ps).1, (collect acc p).2 :: (collectAll (collect acc p).1 ps).2)

/-- How full the buffer is right after each piece, before it is handed over. -/
def loads : Nat → List (Piece α) → List Nat
  | _, [] => []
  | n, p :: ps => (n + p.payload.length) :: loads (if p.last then 0 else n + p.payload.length) ps

theorem collect_length (acc : List α) (p : Piece α) :
    (collect acc p).1.length = if p.last then 0 else acc.length + p.payload.length := by
  unfold collect
  split <;> simp

theorem collectAll_append (acc : List α) (ps qs : List (Piece α)) :
    collectAll acc (ps ++ qs) =
      ((collectAll (collectAll acc ps).1 qs).1,
        (collectAll acc ps).2 ++ (collectAll (collectAll acc ps).1 qs).2) := by
  induction ps generalizing acc with
  | nil => rfl
  | cons p ps ih => simp [collectAll, ih]

@[simp] theorem collectAll_length (acc : List α) (ps : List (Piece α)) :
    (collectAll acc ps).2.length = ps.length := by
  induction ps generalizing acc with
  | nil => rfl
  | cons p ps ih => simp [collectAll, ih]

/-- Pieces with no mark pile up in the buffer. -/
theorem collectAll_unmarked (acc : List α) (ps : List (Piece α)) (h : ∀ p ∈ ps, p.last = false) :
    collectAll acc ps =
      (acc ++ (ps.map Piece.payload).flatten, List.replicate ps.length none) := by
  induction ps generalizing acc with
  | nil => simp [collectAll]
  | cons p ps ih =>
    have hp : collect acc p = (acc ++ p.payload, none) := by
      simp [collect, h p (by simp)]
    simp [collectAll, hp, ih _ (fun q hq => h q (by simp [hq])), List.replicate_succ]

/-- After a marked piece the buffer is empty. -/
theorem collectAll_marked (acc : List α) (ps : List (Piece α)) (p : Piece α) (h : p.last = true) :
    (collectAll acc (ps ++ [p])).1 = [] := by
  rw [collectAll_append]
  simp [collectAll, collect, h]

/-- The buffer has what came in since the last mark. -/
theorem collectAll_waiting (f : β → Piece α) (l : List β) :
    (collectAll [] (l.map f)).1 =
      ((l.rtakeWhile (fun x => !(f x).last)).map (fun x => (f x).payload)).flatten := by
  induction l using List.reverseRecOn with
  | nil => rfl
  | append_singleton l x ih =>
    rw [List.map_append, collectAll_append, ih]
    cases hx : (f x).last with
    | true =>
      rw [List.rtakeWhile_concat_neg _ _ _ (by simp [hx])]
      simp [collectAll, collect, hx]
    | false =>
      rw [List.rtakeWhile_concat_pos _ _ _ (by simp [hx])]
      simp [collectAll, collect, hx]

/-- Something is handed over at the marked pieces and at no others. -/
theorem collectAll_isSome (acc : List α) (ps : List (Piece α)) :
    (collectAll acc ps).2.map Option.isSome = ps.map Piece.last := by
  induction ps generalizing acc with
  | nil => rfl
  | cons p ps ih =>
    have hp : (collect acc p).2.isSome = p.last := by
      unfold collect
      split <;> simp_all
    simp [collectAll, hp, ih]

/-- What a run handed over, in order. -/
def delivered (outs : List (Option β)) : List β := outs.filterMap id

@[simp] theorem delivered_nil : delivered ([] : List (Option β)) = [] := rfl

@[simp] theorem delivered_append (xs ys : List (Option β)) :
    delivered (xs ++ ys) = delivered xs ++ delivered ys := List.filterMap_append

@[simp] theorem delivered_some (x : β) (xs : List (Option β)) :
    delivered (some x :: xs) = x :: delivered xs := rfl

@[simp] theorem delivered_none (xs : List (Option β)) : delivered (none :: xs) = delivered xs := rfl

@[simp] theorem delivered_replicate_none (n : Nat) :
    delivered (List.replicate n (none : Option β)) = [] := by
  induction n with
  | zero => rfl
  | succ n ih => rw [List.replicate_succ, delivered_none, ih]

theorem delivered_map (f : α → β) (xs : List (Option α)) :
    delivered (xs.map (Option.map f)) = (delivered xs).map f := by
  induction xs with
  | nil => rfl
  | cons x xs ih => cases x <;> simp [ih]

/-! ## Frames as groups of pieces -/

/-- The pieces of a frame of which none is lost: only the last one is marked. -/
def Complete (ps : List (Piece α)) : Prop :=
  ∃ us m, ps = us ++ [m] ∧ (∀ p ∈ us, p.last = false) ∧ m.last = true

/-- A complete frame is handed over whole, behind what the buffer held. -/
theorem collectAll_complete {ps : List (Piece α)} (h : Complete ps) (acc : List α) :
    ∃ n, collectAll acc ps =
      ([], List.replicate n none ++ [some (acc ++ (ps.map Piece.payload).flatten)]) := by
  obtain ⟨us, m, rfl, hus, hm⟩ := h
  refine ⟨us.length, ?_⟩
  rw [collectAll_append, collectAll_unmarked _ _ hus]
  simp [collectAll, collect, hm]

/-- Each frame of which nothing is lost is handed over, in order. -/
theorem collectAll_frames (frames : List (List (Piece α))) (h : ∀ ps ∈ frames, Complete ps) :
    (collectAll [] frames.flatten).1 = [] ∧
      delivered (collectAll [] frames.flatten).2 =
        frames.map (fun ps => (ps.map Piece.payload).flatten) := by
  induction frames with
  | nil => exact ⟨rfl, rfl⟩
  | cons ps frames ih =>
    rw [List.forall_mem_cons] at h
    obtain ⟨n, hn⟩ := collectAll_complete h.1 []
    obtain ⟨h1, h2⟩ := ih h.2
    rw [List.flatten_cons, collectAll_append, hn]
    refine ⟨h1, ?_⟩
    simp [h2]

/-- A complete frame that comes in at an empty buffer, in the middle of a
stream: it is handed over at its last piece. -/
theorem collectAll_at {before ps : List (Piece α)} (h : (collectAll [] before).1 = [])
    (hps : Complete ps) (after : List (Piece α)) :
    (collectAll [] (before ++ (ps ++ after))).2[(before ++ ps).length - 1]? =
      some (some (ps.map Piece.payload).flatten) := by
  obtain ⟨us, m, rfl, hus, hm⟩ := hps
  rw [collectAll_append, h, collectAll_append, collectAll_append, collectAll_unmarked _ _ hus]
  rw [List.getElem?_append_right (by simp), List.getElem?_append_left (by simp),
    List.getElem?_append_right (by simp)]
  simp [collectAll, collect, hm]

/-- What is handed over at a mark: all that came in since the mark before. -/
theorem collectAll_frame (f : β → Piece α) (before : List β) (x : β) (hx : (f x).last = true) :
    (collectAll [] ((before ++ [x]).map f)).2[before.length]? =
      some (some (((before.rtakeWhile (fun y => !(f y).last) ++ [x]).map
        (fun y => (f y).payload)).flatten)) := by
  rw [List.map_append, List.map_singleton, collectAll_append, collectAll_waiting]
  rw [List.getElem?_append_right (by simp)]
  simp [collectAll, collect, hx]

/-- Each member of a list that ends at a mark stands in a frame. -/
theorem exists_frame (m : β → Bool) (y : β) (l before : List β)
    (hend : ∃ x, l.getLast? = some x ∧ m x = true)
    (hy : y ∈ before.rtakeWhile (fun x => !m x) ∨ y ∈ l) :
    ∃ mid x after, l = mid ++ x :: after ∧ m x = true ∧
      y ∈ (before ++ mid).rtakeWhile (fun x => !m x) ++ [x] := by
  induction l generalizing before with
  | nil =>
    obtain ⟨x, hx, -⟩ := hend
    cases hx
  | cons z l ih =>
    -- the rest ends at a mark too, when it is not empty
    have hrest : ∀ w ws, l = w :: ws → ∃ x, l.getLast? = some x ∧ m x = true := by
      rintro w ws rfl
      rwa [List.getLast?_cons_cons] at hend
    by_cases hz : m z = true
    · by_cases hhere : y ∈ before.rtakeWhile (fun x => !m x) ∨ y = z
      · refine ⟨[], z, l, rfl, hz, ?_⟩
        rw [List.append_nil, List.mem_append, List.mem_singleton]
        exact hhere
      · rw [not_or] at hhere
        have hl : y ∈ l := (List.mem_cons.mp (hy.resolve_left hhere.1)).resolve_left hhere.2
        obtain ⟨w, ws, hw⟩ := List.exists_cons_of_ne_nil (List.ne_nil_of_mem hl)
        obtain ⟨mid, x, after, hsplit, hx, hmem⟩ := ih (before ++ [z]) (hrest w ws hw) (Or.inr hl)
        refine ⟨z :: mid, x, after, by rw [hsplit, List.cons_append], hx, ?_⟩
        rwa [List.append_assoc, List.singleton_append] at hmem
    · have hne : l ≠ [] := by
        rintro rfl
        obtain ⟨x, hx, hm⟩ := hend
        cases hx
        exact hz hm
      obtain ⟨w, ws, hw⟩ := List.exists_cons_of_ne_nil hne
      have hopen : y ∈ (before ++ [z]).rtakeWhile (fun x => !m x) ∨ y ∈ l := by
        rw [List.rtakeWhile_concat_pos _ _ _ (by simp [hz]), List.mem_append, List.mem_singleton,
          or_assoc]
        exact hy.imp_right List.mem_cons.mp
      obtain ⟨mid, x, after, hsplit, hx, hmem⟩ := ih (before ++ [z]) (hrest w ws hw) hopen
      refine ⟨z :: mid, x, after, by rw [hsplit, List.cons_append], hx, ?_⟩
      rwa [List.append_assoc, List.singleton_append] at hmem

/-! ## Frames that lost pieces -/

def Marked (ps : List (Piece α)) : Prop := ∃ p ∈ ps, p.last = true

/-- What can be left of a frame: the mark is on the last piece, if at all. -/
def Partial (ps : List (Piece α)) : Prop :=
  ∃ us ms, ps = us ++ ms ∧ (∀ p ∈ us, p.last = false) ∧
    (ms = [] ∨ ∃ m, ms = [m] ∧ m.last = true)

theorem Complete.marked {ps : List (Piece α)} (h : Complete ps) : Marked ps := by
  obtain ⟨us, m, rfl, -, hm⟩ := h
  exact ⟨m, by simp, hm⟩

/-- A frame that loses pieces keeps their order. -/
theorem Complete.sublist {ps qs : List (Piece α)} (h : Complete ps) (hq : qs.Sublist ps) :
    Partial qs := by
  obtain ⟨us, m, rfl, hus, hm⟩ := h
  obtain ⟨us', ms, rfl, h1, h2⟩ := List.sublist_append_iff.mp hq
  refine ⟨us', ms, rfl, fun p hp => hus p (h1.subset hp), ?_⟩
  rcases List.sublist_singleton.mp h2 with rfl | rfl
  · exact Or.inl rfl
  · exact Or.inr ⟨m, rfl, hm⟩

/-- With its mark, a frame is complete or what is left of one; without it,
all its pieces pile up. -/
theorem Partial.cases {ps : List (Piece α)} (h : Partial ps) :
    (Marked ps ∧ Complete ps) ∨ (¬ Marked ps ∧ ∀ p ∈ ps, p.last = false) := by
  obtain ⟨us, ms, rfl, hus, rfl | ⟨m, rfl, hm⟩⟩ := h
  · right
    rw [List.append_nil]
    refine ⟨?_, hus⟩
    rintro ⟨p, hp, hlast⟩
    rw [hus p hp] at hlast
    cases hlast
  · have hc : Complete (us ++ [m]) := ⟨us, m, rfl, hus, hm⟩
    exact Or.inl ⟨hc.marked, hc⟩

/-- A mark that gets through leaves the buffer empty. -/
theorem collectAll_of_marked {ps : List (Piece α)} (h : Partial ps) (hm : Marked ps)
    (acc : List α) : (collectAll acc ps).1 = [] := by
  rcases h.cases with ⟨-, us, m, rfl, -, hlast⟩ | ⟨hno, -⟩
  · exact collectAll_marked acc us m hlast
  · exact absurd hm hno

/-! ## Frames that run into each other -/

/-- All cells are the same. -/
def Uniform (l : List α) : Prop := ∃ t, ∀ x ∈ l, x = t

/-- What is left of a frame whose cells all have the tag `t`. -/
def Tagged (ps : List (Piece α)) (t : α) : Prop :=
  Partial ps ∧ ∀ p ∈ ps, p.payload ≠ [] ∧ ∀ x ∈ p.payload, x = t

/-- The frame that comes later has its mark and the earlier one left
something: then the earlier one has its mark too. -/
def Closes (ps qs : List (Piece α)) : Prop := Marked qs → ps ≠ [] → Marked ps

theorem tagged_flatten {ps : List (Piece α)} {t : α} (h : Tagged ps t) :
    ∀ x ∈ (ps.map Piece.payload).flatten, x = t := by
  intro x hx
  rw [List.mem_flatten] at hx
  obtain ⟨l, hl, hxl⟩ := hx
  obtain ⟨p, hp, rfl⟩ := List.mem_map.mp hl
  exact (h.2 p hp).2 x hxl

theorem tagged_flatten_ne_nil {ps : List (Piece α)} {t : α} (h : Tagged ps t) (hne : ps ≠ []) :
    (ps.map Piece.payload).flatten ≠ [] := by
  obtain ⟨p, qs, rfl⟩ := List.exists_cons_of_ne_nil hne
  have hp := (h.2 p List.mem_cons_self).1
  simp [hp]

/-- Cells of one tag behind cells of other tags: all are the same exactly when
there are no others. -/
theorem uniform_append_iff {acc l : List α} {t : α} (hacc : t ∉ acc) (hl : ∀ x ∈ l, x = t)
    (hne : l ≠ []) : Uniform (acc ++ l) ↔ acc = [] := by
  constructor
  · rintro ⟨t', ht'⟩
    obtain ⟨y, hy⟩ := List.exists_mem_of_ne_nil l hne
    have hyt := ht' y (List.mem_append_right acc hy)
    by_contra hacc'
    obtain ⟨x, hx⟩ := List.exists_mem_of_ne_nil acc hacc'
    have hxt := ht' x (List.mem_append_left l hx)
    rw [hxt, ← hyt, hl y hy] at hx
    exact hacc hx
  · rintro rfl
    exact ⟨t, hl⟩

/-- From a buffer that holds cells of no later frame: nothing mixed is handed
over exactly when the buffer is empty or no mark comes, and each frame that
left something closes before the next mark. -/
theorem uniform_from_iff {frames : List (List (Piece α))} {tags : List α}
    (h : List.Forall₂ Tagged frames tags) (hnd : tags.Nodup) (acc : List α)
    (hacc : ∀ x ∈ acc, x ∉ tags) :
    (∀ l ∈ delivered (collectAll acc frames.flatten).2, Uniform l) ↔
      (acc ≠ [] → ∀ ps ∈ frames, ¬ Marked ps) ∧ frames.Pairwise Closes := by
  induction h generalizing acc with
  | nil => simp [collectAll]
  | @cons ps t frames tags hps hrest ih =>
    rw [List.nodup_cons] at hnd
    rw [List.flatten_cons, collectAll_append, delivered_append, List.pairwise_cons]
    rcases hps.1.cases with ⟨hmark, hcomplete⟩ | ⟨hno, hun⟩
    · -- the mark comes through: the buffer and this frame go out together
      have hne : ps ≠ [] := by
        rintro rfl
        obtain ⟨p, hp, -⟩ := hmark
        cases hp
      obtain ⟨n, hn⟩ := collectAll_complete hcomplete acc
      have hih := ih hnd.2 [] (by simp)
      simp only [ne_eq, not_true_eq_false, false_imp_iff, true_and] at hih
      rw [hn, delivered_append, delivered_replicate_none, List.nil_append, delivered_some,
        delivered_nil, List.singleton_append, List.forall_mem_cons, hih]
      rw [uniform_append_iff (fun hmem => hacc t hmem List.mem_cons_self) (tagged_flatten hps)
        (tagged_flatten_ne_nil hps hne)]
      constructor
      · rintro ⟨rfl, hp⟩
        exact ⟨fun hne => absurd rfl hne, fun qs _ _ _ => hmark, hp⟩
      · rintro ⟨ha, -, hp⟩
        refine ⟨?_, hp⟩
        by_contra hne
        exact ha hne ps List.mem_cons_self hmark
    · -- no mark: what is left of the frame stays in the buffer
      rw [collectAll_unmarked _ _ hun, delivered_replicate_none, List.nil_append,
        ih hnd.2 _ (fun x hx => ?_)]
      · by_cases hne : ps = []
        · subst hne
          simp [Marked, Closes]
        · have hflat := tagged_flatten_ne_nil hps hne
          simp only [ne_eq, List.append_eq_nil_iff, hflat, and_false, not_false_eq_true,
            true_imp_iff, List.forall_mem_cons]
          constructor
          · rintro ⟨hnone, hp⟩
            exact ⟨fun _ => ⟨hno, hnone⟩, fun qs hqs hm _ => absurd hm (hnone qs hqs), hp⟩
          · rintro ⟨-, hcloses, hp⟩
            exact ⟨fun qs hqs hm => hno (hcloses qs hqs hm hne), hp⟩
      · rcases List.mem_append.mp hx with hx | hx
        · intro hmem
          exact hacc x hx (List.mem_cons_of_mem _ hmem)
        · rw [tagged_flatten hps x hx]
          exact hnd.1

/-- Frames with different tags: nothing mixed is handed over exactly when
each frame that left something closes before the next mark. -/
theorem uniform_iff {frames : List (List (Piece α))} {tags : List α}
    (h : List.Forall₂ Tagged frames tags) (hnd : tags.Nodup) :
    (∀ l ∈ delivered (collectAll [] frames.flatten).2, Uniform l) ↔ frames.Pairwise Closes := by
  rw [uniform_from_iff h hnd [] (by simp)]
  simp

/-! ## How full the buffer gets -/

theorem loads_append (acc : List α) (ps qs : List (Piece α)) :
    loads acc.length (ps ++ qs) =
      loads acc.length ps ++ loads (collectAll acc ps).1.length qs := by
  induction ps generalizing acc with
  | nil => rfl
  | cons p ps ih =>
    rw [List.cons_append, loads, loads, collectAll, ← collect_length, ih]
    rfl

/-- The load at piece `i` is what the buffer holds before it, and its payload. -/
theorem loads_getElem? (acc : List α) (ps : List (Piece α)) (i : Nat) :
    (loads acc.length ps)[i]? =
      ps[i]?.map (fun p => (collectAll acc (ps.take i)).1.length + p.payload.length) := by
  induction ps generalizing acc i with
  | nil => simp [loads]
  | cons p ps ih =>
    cases i with
    | zero => simp [loads, collectAll]
    | succ i =>
      rw [loads, List.getElem?_cons_succ, List.getElem?_cons_succ, List.take_succ_cons, collectAll,
        ← collect_length, ih]

/-- No load is over all the payloads together. -/
theorem loads_le (n : Nat) (ps : List (Piece α)) (x : Nat) (hx : x ∈ loads n ps) :
    x ≤ n + (ps.map (fun p => p.payload.length)).sum := by
  induction ps generalizing n with
  | nil => simp [loads] at hx
  | cons p ps ih =>
    rw [loads, List.mem_cons] at hx
    rw [List.map_cons, List.sum_cons]
    rcases hx with rfl | hx
    · omega
    · have h := ih _ hx
      split at h <;> omega

/-- Complete frames never load the buffer more than the longest of them. -/
theorem loads_frames (cap : Nat) (frames : List (List (Piece α))) (h : ∀ ps ∈ frames, Complete ps)
    (hcap : ∀ ps ∈ frames, (ps.map Piece.payload).flatten.length ≤ cap) :
    ∀ x ∈ loads 0 frames.flatten, x ≤ cap := by
  induction frames with
  | nil => simp [loads]
  | cons ps frames ih =>
    rw [List.forall_mem_cons] at h hcap
    obtain ⟨n, hn⟩ := collectAll_complete h.1 []
    have happ := loads_append ([] : List α) ps frames.flatten
    rw [hn, List.length_nil] at happ
    intro x hx
    rw [List.flatten_cons, happ, List.mem_append] at hx
    rcases hx with hx | hx
    · have hle := loads_le 0 ps x hx
      have hsum := hcap.1
      rw [List.length_flatten, List.map_map] at hsum
      exact (hle.trans_eq (Nat.zero_add _)).trans hsum
    · exact ih h.2 hcap.2 x hx

/-- The same unmarked piece again and again: the load grows each time. -/
theorem mem_loads_replicate (n m : Nat) (p : Piece α) (h : p.last = false) :
    n + (m + 1) * p.payload.length ∈ loads n (List.replicate (m + 1) p) := by
  induction m generalizing n with
  | zero => simp [loads]
  | succ m ih =>
    rw [List.replicate_succ, loads, h, if_neg (by decide), List.mem_cons]
    right
    have hm := ih (n + p.payload.length)
    have heq : n + (m + 1 + 1) * p.payload.length =
        n + p.payload.length + (m + 1) * p.payload.length := by ring
    rwa [heq]

/-! ## A buffer of bounded size -/

/-- `collect` with a buffer of `cap` cells: a payload that does not fit is
written outside it. -/
def collectIn (cap : Nat) (acc : List α) (p : Piece α) :
    Except Fault (List α × Option (List α)) :=
  if acc.length + p.payload.length ≤ cap then .ok (collect acc p) else .error .write

end payloader.framing
