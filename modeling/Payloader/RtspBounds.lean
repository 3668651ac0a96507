-- Where the parser reads. Its phases after the ports go through the request by
-- an index, and run on a request with no cell after its last byte they do the
-- same and never fail.
import Payloader.RtspReadingLaws

set_option autoImplicit false

namespace payloader.rtsp_bounds

open payloader.memory payloader.machines payloader.c_strings payloader.rtsp_parser
open payloader.rtsp_reading payloader.rtsp_reading_laws

variable {cap cap' : Nat}

/-- The parser from the command name on. `command` stands for what is done with
the name and with the transport, and `number` for the call of `sscanf`. -/
def indexPhases (command : Block RTSP_PARAM_STRING_MAX UInt8 → TcpConnection →
      Except Fault TcpConnection)
    (number : Nat → Except Fault (Option (BitVec 32))) (fuel : Nat) (c : TcpConnection)
    (CmdName : Block RTSP_PARAM_STRING_MAX UInt8) (CurRequest : Block cap UInt8)
    (CurRequestSize : Nat) : Except Fault (Bool × TcpConnection) := do
  let (parseSucceeded, i, CmdName) ← commandName fuel CurRequest CurRequestSize CmdName
  if parseSucceeded = false then .ok (false, c)
  else do
    let c ← command CmdName c
    let (c, i) ← hostPort fuel c CurRequest CurRequestSize i
    let (c, i) ← urlSuffix fuel c CurRequest CurRequestSize i
    match i with
    | none => .ok (false, c)
    | some i =>
      let (c, parseSucceeded) ← cSeq fuel c CurRequest CurRequestSize i
      if parseSucceeded = false then .ok (false, c)
      else do
        let c ← contentLengths number fuel c CurRequest CurRequestSize i
        .ok (true, c)

/-- The parser copies the request, reads the ports and runs these phases. -/
theorem ParseRtspRequest_phases [Libc] {size : Nat} (fuel : Nat) (c : TcpConnection) (l : Locals)
    (aRequest : Block size UInt8) (n : Nat) :
    ParseRtspRequest fuel c l aRequest n = (do
      let CurRequest ← l.CurRequest.memcpy 0 aRequest 0 n
      let (c, CurRequest) ← clientPort c CurRequest l.CP
      indexPhases (fun CmdName c => do transport (← commandType c CmdName) CurRequest)
        (number CurRequest) fuel c l.CmdName CurRequest n) := by
  unfold ParseRtspRequest indexPhases
  rcases l.CurRequest.memcpy 0 aRequest 0 n with e | b0
  · simp only [error_bind]
  simp only [ok_bind]
  rcases clientPort c b0 l.CP with e | ⟨c, b⟩
  · simp only [error_bind]
  simp only [ok_bind]
  rcases commandName fuel b n l.CmdName with e | ⟨found, i, name⟩
  · simp only [error_bind]
  simp only [ok_bind]
  cases found with
  | false => rfl
  | true =>
    rw [if_neg (by decide), if_neg (by decide)]
    rcases commandType c name with e | c
    · simp only [error_bind]
    · simp only [ok_bind]
      rfl

/-- The first `n` cells of a block, as a block of their own. -/
def cut {size : Nat} (b : Block size UInt8) (n : Nat) : Block n UInt8 := { cell := b.cell }

theorem starts_cut (b : Request) {n : Nat} (hn : n ≤ 10000) : Starts (cut b n) (b.slice 0 n) := by
  refine ⟨?_, hn, (starts_slice b hn).cell⟩
  rw [slice_length]

/-- From a cursor after the first byte the path is read with no fault. -/
theorem pathIn_ok (text : List UInt8) {i : Nat} (hi : 1 ≤ i) : ∃ p, pathIn text i = .ok p := by
  unfold pathIn
  rcases hv : firstIn (exactly (bytes "RTSP/")) text (i + 1) (text.length - 5) with _ | version
  · exact ⟨_, rfl⟩
  have hstop := le_trimmed text (Nat.le_of_succ_le (firstIn_bounds hv).1)
  simp only
  rw [if_neg (by omega)]
  split
  · exact ⟨_, rfl⟩
  split
  · exact ⟨_, rfl⟩
  rw [if_neg (by omega)]
  exact ⟨_, rfl⟩

theorem le_nameIn {text : List UInt8} (h : isBlank (text.getD 0 0) = false)
    (hne : 0 < text.length) : 1 ≤ (nameIn text).length := by
  cases text with
  | nil => exact absurd hne (Nat.lt_irrefl 0)
  | cons x xs =>
    have hx : isBlank x = false := h
    simp [nameIn, RTSP_PARAM_STRING_MAX, hx]

/-- A request that does not start with a blank is read the same from any block
that it fits, and with no fault. -/
theorem indexPhases_starts {text : List UInt8} {b : Block cap UInt8} {b' : Block cap' UInt8}
    (h : Starts b text) (h' : Starts b' text) (hfirst : isBlank (text.getD 0 0) = false)
    (command : Block RTSP_PARAM_STRING_MAX UInt8 → TcpConnection → TcpConnection)
    (number : Nat → Option (BitVec 32)) (c : TcpConnection)
    (CmdName : Block RTSP_PARAM_STRING_MAX UInt8) {fuel : Nat} (hf : text.length + 202 ≤ fuel) :
    ∃ r, indexPhases (fun name c => .ok (command name c)) (fun j => .ok (number j)) fuel c CmdName b
        text.length = .ok r ∧
      indexPhases (fun name c => .ok (command name c)) (fun j => .ok (number j)) fuel c CmdName b'
        text.length = .ok r := by
  unfold indexPhases
  rw [commandName_starts h CmdName (by omega), commandName_starts h' CmdName (by omega), ok_bind,
    ok_bind]
  simp only
  by_cases hname : hasName text
  · have hi : (nameIn text).length < text.length :=
      Nat.lt_of_lt_of_le hname (List.length_take_le' _ _)
    have hone : 1 ≤ (nameIn text).length := le_nameIn hfirst (by omega)
    have hurl := urlIn_le hi.le
    have hurl1 : 1 ≤ (urlIn text (nameIn text).length).2 := hone.trans (le_urlIn text _)
    rw [decide_eq_true hname, if_neg (by decide), if_neg (by decide), ok_bind, ok_bind,
      hostPort_starts h _ hi (by omega), hostPort_starts h' _ hi (by omega), ok_bind, ok_bind]
    simp only
    generalize urlIn text (nameIn text).length = url at hurl hurl1
    obtain ⟨host, i⟩ := url
    simp only at hurl hurl1 ⊢
    rw [urlSuffix_starts h _ hurl (fun h0 => by omega) (by omega) (by omega),
      urlSuffix_starts h' _ hurl (fun h0 => by omega) (by omega) (by omega)]
    obtain ⟨p, hp⟩ := pathIn_ok text hurl1
    rw [hp]
    obtain _ | ⟨suffix, _ | ⟨preSuffix, k⟩⟩ := p
    · exact ⟨_, rfl, rfl⟩
    · exact ⟨_, rfl, rfl⟩
    have hk := ((pathIn_fits hp).2 _ _ rfl).2
    simp only [Except.map, ok_bind, storePath]
    rw [cSeq_starts h _ hk (by omega) (by omega), cSeq_starts h' _ hk (by omega) (by omega),
      ok_bind, ok_bind]
    obtain _ | ⟨seq, _ | _⟩ := seqIn text k
    · exact ⟨_, rfl, rfl⟩
    · exact ⟨_, rfl, rfl⟩
    simp only
    rw [if_neg (by decide), if_neg (by decide), contentLengths_starts h _ _ hk (by omega),
      contentLengths_starts h' _ _ hk (by omega)]
    have hnumbers : (numberStarts text (text.length + 1) k).mapM
        (fun t => (Except.ok (number t) : Except Fault _)) =
          .ok ((numberStarts text (text.length + 1) k).map number) := List.mapM_pure
    rw [hnumbers]
    exact ⟨_, rfl, rfl⟩
  · rw [decide_eq_false hname, if_pos rfl, if_pos rfl]
    exact ⟨_, rfl, rfl⟩

/-- The server handles what starts with one of these. -/
def Accepted (first : UInt8) : Prop :=
  first ∈ [ch 'O', ch 'D', ch 'S', ch 'P', ch 'T']

instance (first : UInt8) : Decidable (Accepted first) := List.instDecidableMemOfLawfulBEq _ _

theorem Accepted.not_blank {first : UInt8} (h : Accepted first) : isBlank first = false := by
  simp only [Accepted, List.mem_cons, List.not_mem_nil, or_false] at h
  rcases h with rfl | rfl | rfl | rfl | rfl
  all_goals decide

/-- For every request that passes the filter of the server, the phases that go
by an index end, read only the bytes of the request and write only inside their
arrays, whatever is done with the command name, with the transport and with the
numbers in between. -/
theorem the_index_phases_stay_in_the_request
    (command : Block RTSP_PARAM_STRING_MAX UInt8 → TcpConnection → TcpConnection)
    (number : Nat → Option (BitVec 32)) (c : TcpConnection)
    (CmdName : Block RTSP_PARAM_STRING_MAX UInt8) (CurRequest : Request) (n : Nat) (h1 : 1 ≤ n)
    (hn : n ≤ RTSP_BUFFER_SIZE) (hfirst : Accepted (CurRequest.cell 0)) (fuel : Nat)
    (hf : n + 202 ≤ fuel) :
    ∃ r, indexPhases (fun name c => .ok (command name c)) (fun j => .ok (number j)) fuel c CmdName
        (cut CurRequest n) n = .ok r ∧
      indexPhases (fun name c => .ok (command name c)) (fun j => .ok (number j)) fuel c CmdName
        CurRequest n = .ok r := by
  have hlen : (CurRequest.slice 0 n).length = n := slice_length CurRequest 0 n
  have hcut := starts_cut CurRequest hn
  have hstarts := starts_slice CurRequest hn
  have hcell : (CurRequest.slice 0 n).getD 0 0 = CurRequest.cell 0 :=
    (hstarts.cell 0 (by omega)).symm
  have hblank : isBlank ((CurRequest.slice 0 n).getD 0 0) = false := by
    rw [hcell]
    exact hfirst.not_blank
  have hboth := indexPhases_starts hcut hstarts hblank command number c CmdName
    (show (CurRequest.slice 0 n).length + 202 ≤ fuel by omega)
  rwa [hlen] at hboth

/-- Three bytes, shorter than everything that the scans look for. -/
theorem a_short_request_is_read_inside :
    ∃ r, indexPhases (fun _ c => .ok c) (fun _ => .ok none) 205 TcpConnection.init
        (Block.ofList [] 0) (cut (Block.ofList (bytes "P  ") 0 : Request) 3) 3 = .ok r ∧
      indexPhases (fun _ c => .ok c) (fun _ => .ok none) 205 TcpConnection.init
        (Block.ofList [] 0) (Block.ofList (bytes "P  ") 0 : Request) 3 = .ok r :=
  the_index_phases_stay_in_the_request (fun _ c => c) (fun _ => none) TcpConnection.init
    (Block.ofList [] 0) (Block.ofList (bytes "P  ") 0) 3 (by decide) (by decide)
    (by unfold Accepted; decide) 205 (by decide)

end payloader.rtsp_bounds
