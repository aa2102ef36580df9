import Reckon.Proofs.Levels

/-!
# The limit only refuses

The parser looks at the number of levels in order to refuse another one, and for nothing else. So where
no level is refused, the parser does the same with fewer levels entered at the start: it reads the same
tree, or fails with the same error, at the same place, and as many levels more or less are entered in
the end.

The levels that a chain in the middle has entered are given, and the number cannot be smaller than
that, or leaving them would stop at the outermost level.
-/
namespace Reckon

section Depths
variable {task task' : Task} {c c₁ c' : Cursor} {e : Expr} {err : ParseError}

theorem Reads.atDepth (h : Reads task c e c') :
    ∀ d, task.opened ≤ d → d ≤ c.depth →
      Reads task (c.atDepth d) e (c'.atDepth (d - task.opened)) := by
  induction h with
  | number hk hx => exact fun d _ _ => .number hk hx
  | constant hk hx => exact fun d _ _ => .constant hk hx
  | name hk => exact fun d _ _ => .name hk
  | close hk => exact fun d _ _ => .close hk
  | negation hk _ ih => exact fun d ho hd => .negation hk (ih d ho hd)
  | grouping hl _ hr ih => exact fun d ho hd => .grouping hl (ih d ho hd) hr
  | call hf hl hr _ ih ih' =>
    exact fun d ho hd => .call hf hl (ih d ho hd) (ih' d ho (hr.depth_eq ▸ hd))
  | argument hk hr _ ih ih' =>
    exact fun d ho hd => .argument hk (ih d ho hd) (ih' d ho (hr.depth_eq ▸ hd))
  | ofNumber hk _ ih => exact fun d ho hd => .ofNumber hk (ih d ho hd)
  | ofConstant hk _ ih => exact fun d ho hd => .ofConstant hk (ih d ho hd)
  | enclosed ht hlt _ ih =>
    intro d _ hd
    have hopened := Task.opened_of_opens? ht
    have hinside := ih (d + 1) (by omega) (Nat.succ_le_succ hd)
    rw [hopened] at hinside
    exact .enclosed ht (Nat.lt_of_le_of_lt hd hlt) hinside
  | base _ hop ih => exact fun d ho hd => .base (ih d ho hd) hop
  | raised hr ht hlt _ ih ih' =>
    intro d ho hd
    have hdepth := hr.depth_eq
    simp only [Task.opened] at hdepth
    exact .raised (ih d ho hd) ht (by omega) (ih' (d + 1) (Nat.zero_le _) (by simp only; omega))
  | term _ ih => exact fun d ho hd => .term (ih d ho hd)
  | ofPower _ ih => exact fun d ho hd => .ofPower (ih d ho hd)
  | chain hr _ ih ih' =>
    exact fun d ho hd => .chain (ih d ho hd) (ih' d ho (hr.depth_eq ▸ hd))
  | done hop => exact fun d _ _ => .done hop
  | link ht hlt hr _ ih ih' =>
    intro d ho hd
    have hrest := ih' (d + 1) (Nat.succ_le_succ ho) (hr.depth_eq ▸ Nat.succ_le_succ hd)
    simp only [Task.opened, Nat.add_sub_add_right] at hrest
    exact .link ht (Nat.lt_of_le_of_lt hd hlt) (ih (d + 1) (Nat.zero_le _) (Nat.succ_le_succ hd)) hrest

namespace Fails

/-- With fewer levels entered the failure is the same, and as many fewer are entered where it is
found. -/
def Shallower (task : Task) (c : Cursor) (err : ParseError) (c' : Cursor) : Prop :=
  ∀ d, task.opened ≤ d → d ≤ c.depth →
    ∃ d', d' + c.depth = c'.depth + d ∧ Fails task (c.atDepth d) err (c'.atDepth d')

theorem Shallower.here (hdepth : c'.depth = c.depth)
    (h : ∀ d, d ≤ c.depth → Fails task (c.atDepth d) err (c'.atDepth d)) :
    Shallower task c err c' :=
  fun d _ hd => ⟨d, by omega, h d hd⟩

theorem Shallower.imp (n : Nat) (h : Shallower task' c₁ err c') (hdepth : c₁.depth = c.depth + n)
    (hopened : task'.opened ≤ task.opened + n)
    (himp : ∀ d d', d ≤ c.depth → Fails task' (c₁.atDepth (d + n)) err (c'.atDepth d') →
      Fails task (c.atDepth d) err (c'.atDepth d')) :
    Shallower task c err c' := by
  intro d ho hd
  obtain ⟨d', hd', hf⟩ := h (d + n) (by omega) (by omega)
  exact ⟨d', by omega, himp d d' hd hf⟩

theorem Shallower.leave (h : Shallower task' c₁ err c') (hdepth : c₁.depth = c.depth + 1)
    (hopened : task'.opened = 0)
    (himp : ∀ d d', d ≤ c.depth → Fails task' (c₁.atDepth (d + 1)) err (c'.atDepth d') →
      Fails task (c.atDepth d) err ((c'.atDepth d').leave 1)) :
    Shallower task c err (c'.leave 1) := by
  intro d _ hd
  obtain ⟨d', hd', hf⟩ := h (d + 1) (by omega) (by omega)
  have hle : d + 1 ≤ d' := hf.depth_bounds.1
  refine ⟨d' - 1, ?_, himp d d' hd hf⟩
  simp only [Cursor.leave]
  omega

/-- A failure that is not for want of a level is the same with fewer levels entered. -/
theorem shallower (h : Fails task c err c')
    (hne : ∀ limit position, err ≠ .nestingTooDeep limit position) : Shallower task c err c' := by
  induction h with
  | ended htask hk => exact .here rfl fun d _ => .ended htask hk
  | unreadable hk hx => exact .here rfl fun d _ => .unreadable hk hx
  | unknown hk hx => exact .here rfl fun d _ => .unknown hk hx
  | negation hk _ ih => exact (ih hne).imp 0 rfl (Nat.le_refl _) fun d d' _ hf => .negation hk hf
  | unopened hk => exact .here rfl fun d _ => .unopened hk
  | grouping hl _ ih => exact (ih hne).imp 0 rfl (Nat.le_refl _) fun d d' _ hf => .grouping hl hf
  | unclosed hl hr hk =>
    exact .here hr.depth_eq fun d hd => .unclosed hl (hr.atDepth d (Nat.zero_le _) hd) hk
  | unnamed hk => exact .here rfl fun d _ => .unnamed hk
  | bare hf hk => exact .here rfl fun d _ => .bare hf hk
  | first hf hl _ ih => exact (ih hne).imp 0 rfl (Nat.le_refl _) fun d d' _ hfail => .first hf hl hfail
  | call hf hl hr _ ih =>
    exact (ih hne).imp 0 hr.depth_eq (Nat.le_refl _) fun d d' hd hfail =>
      .call hf hl (hr.atDepth d (Nat.zero_le _) hd) hfail
  | argument hk _ ih => exact (ih hne).imp 0 rfl (Nat.le_refl _) fun d d' _ hf => .argument hk hf
  | arguments hk hr _ ih =>
    exact (ih hne).imp 0 hr.depth_eq (Nat.le_refl _) fun d d' hd hf =>
      .arguments hk (hr.atDepth d (Nat.zero_le _) hd) hf
  | unfinished hcomma hk => exact .here rfl fun d _ => .unfinished hcomma hk
  | ofNumber hk _ ih => exact (ih hne).imp 0 rfl (Nat.le_refl _) fun d d' _ hf => .ofNumber hk hf
  | ofConstant hk _ ih => exact (ih hne).imp 0 rfl (Nat.le_refl _) fun d d' _ hf => .ofConstant hk hf
  | noFactor hstarts => exact .here rfl fun d _ => .noFactor hstarts
  | full | powerFull | linkFull => exact absurd rfl (hne _ _)
  | enclosed ht hlt _ ih =>
    exact (ih hne).leave rfl (Task.opened_of_opens? ht) fun d d' hd hf =>
      .enclosed ht (Nat.lt_of_le_of_lt hd hlt) hf
  | base _ ih => exact (ih hne).imp 0 rfl (Nat.le_refl _) fun d d' _ hf => .base hf
  | exponent hr ht hlt _ ih =>
    have hdepth := hr.depth_eq
    simp only [Task.opened, Nat.sub_zero] at hdepth
    exact (ih hne).leave (by rw [hdepth]) rfl fun d d' hd hf =>
      .exponent (hr.atDepth d (Nat.zero_le _) hd) ht (by omega) hf
  | term _ ih => exact (ih hne).imp 0 rfl (Nat.le_refl _) fun d d' _ hf => .term hf
  | ofPower _ ih => exact (ih hne).imp 0 rfl (Nat.le_refl _) fun d d' _ hf => .ofPower hf
  | chain _ ih => exact (ih hne).imp 0 rfl (Nat.le_refl _) fun d d' _ hf => .chain hf
  | links hr _ ih =>
    exact (ih hne).imp 0 hr.depth_eq (Nat.le_refl _) fun d d' hd hf =>
      .links (hr.atDepth d (Nat.zero_le _) hd) hf
  | operand ht hlt _ ih =>
    exact (ih hne).imp 1 rfl (Nat.zero_le _) fun d d' hd hf =>
      .operand ht (Nat.lt_of_le_of_lt hd hlt) hf
  | link ht hlt hr _ ih =>
    exact (ih hne).imp 1 hr.depth_eq (Nat.le_refl _) fun d d' hd hf =>
      .link ht (Nat.lt_of_le_of_lt hd hlt)
        (hr.atDepth (d + 1) (Nat.zero_le _) (Nat.succ_le_succ hd)) hf

end Fails

/-- A part of the grammar that is not refused a level is read, or not read, in the same way with fewer
levels entered, and at the end there are as many fewer. -/
theorem Production.parse_atDepth (p : Production) (c : Cursor) (d : Nat) (hd : d ≤ c.depth)
    (hne : ∀ limit position, (p.parse c).result.1 ≠ .error (.nestingTooDeep limit position)) :
    ∃ d', (p.parse (c.atDepth d)).result =
        ((p.parse c).result.1, (p.parse c).result.2.atDepth d') ∧
      d' + c.depth = (p.parse c).result.2.depth + d := by
  rcases p.settled c with ⟨e, c', hr, hresult⟩ | ⟨err, c', hf, hresult⟩
  · have hlower := hr.atDepth d (p.opened_task ▸ Nat.zero_le d) hd
    have hdepth := hr.depth_eq
    rw [p.opened_task, Nat.sub_zero] at hlower hdepth
    rw [hresult, p.result_parse_eq_ok_iff.mpr hlower]
    exact ⟨d, rfl, by simp only; omega⟩
  · have herr : ∀ limit position, err ≠ .nestingTooDeep limit position := by
      intro limit position heq
      exact hne limit position (by rw [hresult, heq])
    obtain ⟨d', hd', hlower⟩ := hf.shallower herr d (p.opened_task ▸ Nat.zero_le d) hd
    rw [hresult, p.result_parse_eq_error_iff.mpr hlower]
    exact ⟨d', rfl, hd'⟩

end Depths

/-- In front of the first token of `x+`, with this many levels entered. -/
def Cursor.ofHalfSum (depth : Nat) : Cursor :=
  ⟨[], [⟨.identifier, "x", ⟨0, 1⟩⟩, ⟨.operator, "+", ⟨1, 2⟩⟩], depth⟩

/-- Where the operator takes the last level, `x+` fails for want of an operand, and at the outermost
level it fails in the same way. -/
theorem Production.parse_atDepth_half_sum :
    (expression.parse (.ofHalfSum 255)).result =
        (.error (.unexpectedEnd 2), ⟨(Cursor.ofHalfSum 0).ahead.reverse, [], depthLimit⟩) ∧
      ∃ d, (expression.parse (.ofHalfSum 0)).result =
          (.error (.unexpectedEnd 2), ⟨(Cursor.ofHalfSum 0).ahead.reverse, [], d⟩) ∧
        d + 255 = depthLimit + 0 := by
  have hrun : (expression.parse (.ofHalfSum 255)).result =
      (.error (.unexpectedEnd 2), ⟨(Cursor.ofHalfSum 0).ahead.reverse, [], depthLimit⟩) := by
    have hname : Reads (.operand .sum) (.ofHalfSum 255) (.var "x")
        ⟨[⟨.identifier, "x", ⟨0, 1⟩⟩], [⟨.operator, "+", ⟨1, 2⟩⟩], 255⟩ :=
      .term (.chain (.ofPower (.base (.name rfl) rfl)) (.done rfl))
    have hmissing : Fails (.operand .sum) ⟨(Cursor.ofHalfSum 0).ahead.reverse, [], depthLimit⟩
        (.unexpectedEnd 2) ⟨(Cursor.ofHalfSum 0).ahead.reverse, [], depthLimit⟩ :=
      .term (.chain (.ofPower (.base (.noFactor nofun))))
    have hsum : Fails (.chain .sum) (.ofHalfSum 255) (.unexpectedEnd 2)
        ⟨(Cursor.ofHalfSum 0).ahead.reverse, [], depthLimit⟩ :=
      .links hname (.operand (by decide) (by decide) hmissing)
    exact expression.result_parse_eq_error_iff.mpr hsum
  have hlower := parse_atDepth expression (.ofHalfSum 255) 0 (by decide) (by rw [hrun]; nofun)
  rw [hrun] at hlower
  exact ⟨hrun, hlower⟩

end Reckon
