import Reckon.Proofs.MaximalMunch

/-!
# The turns of a scan

A scan is a loop that does not always come closer to the end of the source: a turn that rejects the
character ahead leaves it there. Such a turn stalls. It stalls only with a text pending, and leaves
none, so the next turn looks at the same character with nothing pending: it passes the character, or
it ends the scan. There is one way to go through the loop (`Loop.unique`). A source of `n` characters is
scanned in at most `2 * n` turns, and one of symbols alone takes all of these but one
(`loop_length_of_symbols`).

Whenever a turn begins, the scanner agrees with its source. The pending text, if there is one, is the
piece of the source from its start up to the scanner's position; it has no blanks, some class accepts
it, and it is within the limit. That much holds for any classes.
-/
namespace Reckon.Scanner
open Text TokenClass

/-- A turn leads from the one scanner to the other. -/
def Leads (classes : List TokenClass) (s next : Scanner) : Prop :=
  ∃ c, s.current? = some c ∧ s.step classes c = .ok next

/-- The loop of a scan: the scanners that its turns begin with, and its answer. A turn that fails is
the last one. -/
inductive Loop (classes : List TokenClass) :
    Scanner → List Scanner → Except LexError Scanner → Prop
  | done {s : Scanner} : s.current? = none → Loop classes s [] (.ok s)
  | failed {s : Scanner} {c : Char} {e : LexError} : s.current? = some c →
      s.step classes c = .error e → Loop classes s [s] (.error e)
  | turn {s next : Scanner} {visits : List Scanner} {answer : Except LexError Scanner} :
      Leads classes s next → Loop classes next visits answer →
      Loop classes s (s :: visits) answer

/-- The next turn passes no character, and the scan goes on. -/
def Stalls (classes : List TokenClass) (s : Scanner) : Prop :=
  ∃ next, Leads classes s next ∧ next.position = s.position

/-- The text is the piece of the source between two positions, and has no blanks. -/
structure Piece (source text : List Char) (start stop : Nat) : Prop where
  start_le : start ≤ stop
  eq_extract : text = source.extract start stop
  not_isBlank : ∀ c ∈ text, ¬ isBlank c

/-- The piece of the source may become a token, or grow into one. -/
structure Candidate (classes : List TokenClass) (source text : List Char) (start stop : Nat) : Prop
    extends Piece source text start stop where
  accepted : accepts classes text
  length_le : text.length ≤ lexemeLimit

/-- The scanner agrees with the source that is scanned. -/
structure Coherent (classes : List TokenClass) (source : List Char) (s : Scanner) : Prop where
  position_le : s.position ≤ source.length
  rest_eq : s.rest = source.drop s.position
  pending : s.pending ≠ [] → Candidate classes source s.pending s.start s.position

section Loops
variable {classes : List TokenClass} {s next next' : Scanner} {visits visits' : List Scanner}
  {answer answer' : Except LexError Scanner} {c : Char}

theorem exists_rest (h : s.current? = some c) : ∃ rest, s.rest = c :: rest :=
  List.head?_eq_some_iff.mp h

theorem Leads.step_eq (h : Leads classes s next) (hc : s.current? = some c) :
    s.step classes c = .ok next := by
  obtain ⟨d, hd, hstep⟩ := h
  cases hc.symm.trans hd
  exact hstep

theorem Leads.unique (h : Leads classes s next) (h' : Leads classes s next') : next = next' := by
  obtain ⟨c, hc, hstep⟩ := h
  exact Except.ok.inj (hstep.symm.trans (h'.step_eq hc))

theorem Leads.current?_ne_none (h : Leads classes s next) : s.current? ≠ none := by
  obtain ⟨c, hc, -⟩ := h
  exact Option.ne_none_iff_exists'.mpr ⟨c, hc⟩

theorem Leads.remaining_lt (h : Leads classes s next) : next.remaining < s.remaining := by
  obtain ⟨c, hc, hstep⟩ := h
  obtain ⟨rest, hrest⟩ := exists_rest hc
  exact remaining_step hrest hstep

/-- Every scan comes to an end, with the answer of `run`. -/
theorem exists_loop (classes : List TokenClass) (s : Scanner) :
    ∃ visits, Loop classes s visits (s.run classes) := by
  induction hturns : s.remaining using Nat.strongRecOn generalizing s with
  | ind turns ih =>
    cases hrest : s.rest with
    | nil =>
      rw [run_of_nil hrest]
      exact ⟨[], .done (by simp [current?, hrest])⟩
    | cons c rest =>
      have hc : s.current? = some c := by simp [current?, hrest]
      rw [run_of_cons hrest]
      cases hstep : s.step classes c with
      | error e => exact ⟨[s], .failed hc hstep⟩
      | ok next =>
        have hleads : Leads classes s next := ⟨c, hc, hstep⟩
        obtain ⟨visits, hloop⟩ := ih next.remaining (hturns ▸ hleads.remaining_lt) next rfl
        exact ⟨s :: visits, .turn hleads hloop⟩

/-- There is one way only to go through the loop. -/
theorem Loop.unique (h : Loop classes s visits answer) (h' : Loop classes s visits' answer') :
    visits = visits' ∧ answer = answer' := by
  induction h generalizing visits' answer' with
  | done hnone =>
    cases h' with
    | done => exact ⟨rfl, rfl⟩
    | failed hc => cases hnone.symm.trans hc
    | turn hleads => exact absurd hnone hleads.current?_ne_none
  | failed hc hstep =>
    cases h' with
    | done hnone => cases hnone.symm.trans hc
    | failed hc' hstep' =>
      cases hc.symm.trans hc'
      cases hstep.symm.trans hstep'
      exact ⟨rfl, rfl⟩
    | turn hleads => cases hstep.symm.trans (hleads.step_eq hc)
  | turn hleads _ ih =>
    cases h' with
    | done hnone => exact absurd hnone hleads.current?_ne_none
    | failed hc hstep => cases hstep.symm.trans (hleads.step_eq hc)
    | turn hleads' hloop =>
      cases hleads.unique hleads'
      obtain ⟨hvisits, hanswer⟩ := ih hloop
      exact ⟨congrArg _ hvisits, hanswer⟩

theorem two_le_remaining (h : s.current? = some c) : 2 ≤ s.remaining := by
  obtain ⟨rest, hrest⟩ := exists_rest h
  simp only [remaining, hrest, List.length_cons]
  omega

/-- The last turn leaves nothing to count, so one turn less is made than the measure has. -/
theorem Loop.length_le (h : Loop classes s visits answer) : visits.length ≤ s.remaining - 1 := by
  induction h with
  | done => exact Nat.zero_le _
  | failed hc => exact Nat.le_sub_one_of_lt (two_le_remaining hc)
  | turn hleads _ ih =>
    have hlt := hleads.remaining_lt
    obtain ⟨c, hc, -⟩ := hleads
    have htwo := two_le_remaining hc
    rw [List.length_cons]
    omega

/-- A turn passes one character, or ends the pending text and passes none. -/
theorem Leads.position_eq (h : Leads classes s next) :
    next.position = s.position + 1 ∨
      next.position = s.position ∧ s.pending ≠ [] ∧ next.pending = [] := by
  obtain ⟨c, -, hstep⟩ := h
  cases turn_of_step hstep with
  | blank _ hemit =>
    obtain ⟨-, -, hposition⟩ := emit_eq_ok hemit
    exact .inl (congrArg (· + 1) hposition)
  | grow => exact .inl rfl
  | reject _ _ hne hemit =>
    obtain ⟨hpending, -, hposition⟩ := emit_eq_ok hemit
    exact .inr ⟨hposition, hne, hpending⟩

theorem Leads.of_stalled (h : Leads classes s next) (hposition : next.position = s.position) :
    s.pending ≠ [] ∧ next.pending = [] := by
  rcases h.position_eq with hpassed | ⟨-, hpending⟩
  · omega
  · exact hpending

theorem Stalls.pending_ne_nil (h : s.Stalls classes) : s.pending ≠ [] := by
  obtain ⟨next, hleads, hposition⟩ := h
  exact (hleads.of_stalled hposition).1

theorem Loop.position_le (h : Loop classes s visits answer) :
    ∀ t ∈ visits, s.position ≤ t.position := by
  induction h with
  | done => simp
  | failed => simp
  | turn hleads _ ih =>
    intro t ht
    cases ht with
    | head => exact Nat.le_refl _
    | tail _ ht =>
      have hlater := ih t ht
      have hposition := hleads.position_eq
      omega

theorem Loop.lt_position_of_stalls (h : Loop classes s visits answer) (hpending : s.pending = []) :
    ∀ t ∈ visits, t.Stalls classes → s.position < t.position := by
  intro t ht hstalls
  cases h with
  | done => cases ht
  | failed hc hstep =>
    cases List.mem_singleton.mp ht
    exact absurd hpending hstalls.pending_ne_nil
  | turn hleads hloop =>
    cases ht with
    | head => exact absurd hpending hstalls.pending_ne_nil
    | tail _ ht =>
      have hlater := hloop.position_le t ht
      rcases hleads.position_eq with hpassed | ⟨-, hne, -⟩
      · omega
      · exact absurd hpending hne

/-- Between two turns that stall, characters are passed. -/
theorem Loop.stalls_pairwise (h : Loop classes s visits answer) :
    visits.Pairwise fun t u => t.Stalls classes → u.Stalls classes → t.position < u.position := by
  induction h with
  | done => exact .nil
  | failed => exact List.pairwise_singleton _ _
  | turn hleads hloop ih =>
    refine .cons ?_ ih
    intro u hu hstalls hstalls'
    obtain ⟨next, hnext, hposition⟩ := hstalls
    cases hleads.unique hnext
    rw [← hposition]
    exact hloop.lt_position_of_stalls (hleads.of_stalled hposition).2 u hu hstalls'

end Loops

section Sources
variable {classes : List TokenClass} {source text rest : List Char} {s next emitted : Scanner}
  {visits : List Scanner} {answer : Except LexError Scanner} {c : Char} {start stop : Nat}

theorem lt_length_of_drop (h : source.drop stop = c :: rest) : stop < source.length := by
  have hlength := congrArg List.length h
  rw [List.length_drop, List.length_cons] at hlength
  omega

theorem extract_succ (h : source.drop stop = c :: rest) (hle : start ≤ stop) :
    source.extract start (stop + 1) = source.extract start stop ++ [c] := by
  have hget : (source.drop start)[stop - start]? = some c := by
    rw [List.getElem?_drop, Nat.add_sub_cancel' hle, ← List.head?_drop, h, List.head?_cons]
  simp only [List.extract]
  rw [Nat.sub_add_comm hle, List.take_add_one, hget, Option.toList_some]

theorem coherent_ofSource (classes : List TokenClass) (source : String) :
    (ofSource source).Coherent classes source.toList where
  position_le := Nat.zero_le _
  rest_eq := List.drop_zero.symm
  pending h := absurd rfl h

theorem Coherent.drop_eq (h : s.Coherent classes source) (hc : s.current? = some c) :
    ∃ rest, source.drop s.position = c :: rest := by
  rw [← h.rest_eq]
  exact exists_rest hc

theorem Coherent.emit (h : s.Coherent classes source) (hemit : s.emit classes = .ok emitted) :
    emitted.Coherent classes source := by
  obtain ⟨hpending, hrest, hposition⟩ := emit_eq_ok hemit
  refine ⟨?_, ?_, fun hne => absurd hpending hne⟩
  · rw [hposition]
    exact h.position_le
  · rw [hrest, hposition]
    exact h.rest_eq

theorem Coherent.passed (h : s.Coherent classes source) (hc : s.current? = some c) :
    s.position + 1 ≤ source.length ∧ s.rest.tail = source.drop (s.position + 1) := by
  obtain ⟨rest, hdrop⟩ := h.drop_eq hc
  exact ⟨lt_length_of_drop hdrop, by rw [h.rest_eq, List.tail_drop]⟩

theorem Coherent.advance (h : s.Coherent classes source) (hpending : s.pending = [])
    (hc : s.current? = some c) : s.advance.Coherent classes source :=
  ⟨(h.passed hc).1, (h.passed hc).2, fun hne => absurd hpending hne⟩

theorem Coherent.piece (h : s.Coherent classes source)
    (hstart : start = if s.pending.isEmpty then s.position else s.start) :
    Piece source s.pending start s.position := by
  by_cases hpending : s.pending = []
  · have hhere : start = s.position := by simp [hstart, hpending]
    rw [hhere, hpending]
    exact ⟨Nat.le_refl _, by simp [List.extract], by simp⟩
  · have hkept : start = s.start := by simp [hstart, hpending]
    rw [hkept]
    exact (h.pending hpending).toPiece

theorem Piece.candidate (h : Piece source text start stop) (hdrop : source.drop stop = c :: rest)
    (hblank : ¬ isBlank c) (haccepts : accepts classes (text ++ [c]))
    (hshort : stop - start < lexemeLimit) :
    Candidate classes source (text ++ [c]) start (stop + 1) where
  start_le := Nat.le_succ_of_le h.start_le
  eq_extract := by rw [extract_succ hdrop h.start_le, ← h.eq_extract]
  not_isBlank d hd := by
    rcases List.mem_append.mp hd with hd | hd
    · exact h.not_isBlank d hd
    · rwa [List.mem_singleton.mp hd]
  accepted := haccepts
  length_le := by
    rw [List.length_append, List.length_singleton, h.eq_extract, List.extract, List.length_take]
    omega

theorem Coherent.leads (h : s.Coherent classes source) (hleads : Leads classes s next) :
    next.Coherent classes source := by
  obtain ⟨c, hc, hstep⟩ := hleads
  cases turn_of_step hstep with
  | blank _ hemit =>
    obtain ⟨hpending, hrest, -⟩ := emit_eq_ok hemit
    have hahead : Scanner.current? _ = some c := (congrArg List.head? hrest).trans hc
    exact (h.emit hemit).advance hpending hahead
  | grow hblank haccepts hstart hshort =>
    obtain ⟨hle, htail⟩ := h.passed hc
    obtain ⟨rest, hdrop⟩ := h.drop_eq hc
    have hcandidate := (h.piece hstart).candidate hdrop hblank haccepts hshort
    exact ⟨hle, htail, fun _ => hcandidate⟩
  | reject _ _ _ hemit => exact h.emit hemit

/-- The scanner agrees with the source whenever a turn begins, and when the loop is left. -/
theorem Loop.coherent (h : Loop classes s visits answer) (hs : s.Coherent classes source) :
    (∀ t ∈ visits, t.Coherent classes source) ∧ ∀ t, answer = .ok t → t.Coherent classes source := by
  induction h with
  | done =>
    refine ⟨by simp, fun t ht => ?_⟩
    cases ht
    exact hs
  | failed => exact ⟨by simpa using hs, by simp⟩
  | turn hleads _ ih =>
    obtain ⟨hvisits, hanswer⟩ := ih (hs.leads hleads)
    exact ⟨List.forall_mem_cons.mpr ⟨hs, hvisits⟩, hanswer⟩

end Sources

/-- The loop of a scan ends, after at most two turns for each character of the source. A turn that
passes no character leaves nothing pending where something was, and the next one like it begins
further on. Whenever a turn begins, a pending text is the piece of the source from its start up to
there, without blanks, accepted by some class and within the limit. -/
theorem loop_length_le_twice (classes : List TokenClass) (source : String) :
    ∃ visits, Loop classes (ofSource source) visits ((ofSource source).run classes) ∧
      visits.length ≤ 2 * source.length ∧
      (∀ s ∈ visits, ∀ next, Leads classes s next → next.position = s.position →
        s.pending ≠ [] ∧ next.pending = []) ∧
      (visits.Pairwise fun s t => s.Stalls classes → t.Stalls classes → s.position < t.position) ∧
      ∀ s ∈ visits, s.Coherent classes source.toList := by
  obtain ⟨visits, hloop⟩ := exists_loop classes (ofSource source)
  have hremaining : (ofSource source).remaining = 2 * source.length := by
    simp [remaining, ofSource, String.length_toList]
  refine ⟨visits, hloop, ?_, ?_, hloop.stalls_pairwise, ?_⟩
  · rw [← hremaining]
    exact Nat.le_trans hloop.length_le (Nat.sub_le _ _)
  · intro s _ next hleads hposition
    exact hleads.of_stalled hposition
  · exact (hloop.coherent (coherent_ofSource classes source)).1

section Symbols
variable {s : Scanner} {c : Char} {kind : TokenKind} {run : List Char}

theorem leads_of_symbol (hpending : s.pending = []) (hrest : s.rest = c :: run)
    (hkind : symbolKind c = some kind) :
    Leads all s { s.advance with pending := [c], start := s.position } := by
  obtain ⟨-, -, -, hblank, -⟩ := symbol_facts (Option.isSome_of_eq_some hkind)
  have haccepts : accepts all (s.pending ++ [c]) := by
    rw [hpending]
    exact Language.accepts_iff_has.mpr ⟨.symbol kind, c, rfl, hkind⟩
  refine ⟨c, by rw [current?, hrest, List.head?_cons], ?_⟩
  rw [step_of_accepts hblank haccepts]
  simp [hpending, lexemeLimit]

theorem exists_leads_of_rejected (hpending : (Language.symbol kind).Has s.pending)
    (hrest : s.rest = c :: run) (hc : (symbolKind c).isSome) :
    ∃ emitted, Leads all s emitted ∧ emitted.pending = [] ∧ emitted.rest = c :: run := by
  obtain ⟨-, -, -, hblank, -⟩ := symbol_facts hc
  have hlast : s.pending.getLast? ≠ some '.' := by
    obtain ⟨d, hd, hkind⟩ := hpending
    simpa [hd] using (symbol_facts (Option.isSome_of_eq_some hkind)).2.2.2.2
  refine ⟨{ s.push (Language.token (.symbol kind) s.pending s.start) with pending := [] },
    ⟨c, by rw [current?, hrest, List.head?_cons], ?_⟩, rfl, hrest⟩
  rw [step_of_not_accepts hblank (Language.accepts_append_symbol hpending.ne_nil hc),
    if_neg (mt List.isEmpty_iff.mp hpending.ne_nil), emit_of_has hpending, if_neg hlast]

theorem exists_loop_of_symbols (hpending : (Language.symbol kind).Has s.pending)
    (hrest : ∀ c ∈ s.rest, (symbolKind c).isSome) :
    ∃ visits answer, Loop all s visits answer ∧ visits.length = 2 * s.rest.length := by
  induction htext : s.rest generalizing s kind with
  | nil => exact ⟨[], .ok s, .done (by rw [current?, htext, List.head?_nil]), rfl⟩
  | cons c text ih =>
    have hsymbols : ∀ d ∈ c :: text, (symbolKind d).isSome := htext ▸ hrest
    have hc := hsymbols c List.mem_cons_self
    obtain ⟨kind', hkind⟩ := Option.isSome_iff_exists.mp hc
    obtain ⟨emitted, hreject, hnil, hkept⟩ := exists_leads_of_rejected hpending htext hc
    have hgrow := leads_of_symbol hnil hkept hkind
    have hnext : (Language.symbol kind').Has [c] := ⟨c, rfl, hkind⟩
    have hahead : emitted.rest.tail = text := congrArg List.tail hkept
    obtain ⟨visits, answer, hloop, hlength⟩ :=
      ih (s := { emitted.advance with pending := [c], start := emitted.position }) hnext
        (fun d hd => hsymbols d (List.mem_cons_of_mem c (hahead ▸ hd))) hahead
    refine ⟨_, answer, .turn hreject (.turn hgrow hloop), ?_⟩
    simp only [List.length_cons, hlength]
    omega

/-- A source of symbols takes as many turns as a source can: two for each character but the first. -/
theorem loop_length_of_symbols (source : String) (hne : source.toList ≠ [])
    (h : ∀ c ∈ source.toList, (symbolKind c).isSome) :
    ∃ visits answer, Loop all (ofSource source) visits answer ∧
      visits.length + 1 = 2 * source.length := by
  obtain ⟨c, text, hsource⟩ := List.exists_cons_of_ne_nil hne
  rw [hsource] at h
  obtain ⟨kind, hkind⟩ := Option.isSome_iff_exists.mp (h c List.mem_cons_self)
  have hfirst := leads_of_symbol (s := ofSource source) rfl hsource hkind
  have hpending : (Language.symbol kind).Has [c] := ⟨c, rfl, hkind⟩
  have hahead : source.toList.tail = text := congrArg List.tail hsource
  obtain ⟨visits, answer, hloop, hlength⟩ :=
    exists_loop_of_symbols
      (s := { (ofSource source).advance with pending := [c], start := 0 }) hpending
      (fun d hd => h d (List.mem_cons_of_mem c (hahead ▸ hd)))
  have htext : visits.length = 2 * text.length := hahead ▸ hlength
  refine ⟨_, answer, .turn hfirst hloop, ?_⟩
  rw [← String.length_toList, hsource, List.length_cons, List.length_cons, htext]
  omega

end Symbols

end Reckon.Scanner
