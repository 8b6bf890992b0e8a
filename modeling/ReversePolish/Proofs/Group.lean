import ReversePolish.Proofs.Expression
import ReversePolish.Proofs.Relocation

/-!
# Group — a text in parentheses is converted as it is alone

Between an opening parenthesis and the one that closes it, a conversion goes as it would in a text of its
own: it finds an opening parenthesis where that text finds the bottom of the stack, and the closing one
sends what the end of that text would drain.
-/

namespace ReversePolish

/-! ## 1. Texts in texts -/

theorem Token.stop_relocate_add (k : Nat) (t : Token) : (t.relocate (· + k)).stop = t.stop + k :=
  Nat.add_right_comm _ _ _

theorem Reading.relocate_add {pos : Nat} {cs : List Char} {ts : List Token} (h : Reading pos cs ts) (k : Nat) :
    Reading (pos + k) cs (ts.map (Token.relocate (· + k))) := by
  have hsucc : ∀ n : Nat, n + 1 + k = n + k + 1 := fun n => Nat.add_right_comm n 1 k
  induction h with
  | done => exact .done
  | space _ ih => exact .space (hsucc _ ▸ ih)
  | @number pos d run rest ts hd hrun hrest _ ih =>
    have hpos : pos + 1 + run.length + k = pos + k + 1 + run.length := by omega
    exact .number hd hrun hrest (hpos ▸ ih)
  | operator op _ ih => exact .operator op (hsucc _ ▸ ih)
  | opening _ ih => exact .opening (hsucc _ ▸ ih)
  | closing _ ih => exact .closing (hsucc _ ▸ ih)
  | invalid hspace hdigit hc _ ih => exact .invalid hspace hdigit hc (hsucc _ ▸ ih)

-- Behind each of its tokens a text is read on from the end of that token.
theorem Reading.exists_behind_head {pos : Nat} {cs : List Char} {ts : List Token} {t : Token}
    (h : Reading pos cs (t :: ts)) :
    ∃ front back, cs = front ++ back ∧ pos + front.length = t.stop ∧ Reading t.stop back ts := by
  obtain ⟨spaces, rest, rfl, -, hstart, -, hrest⟩ := h.exists_cons
  refine ⟨spaces ++ t.lexeme.chars, rest, by rw [List.append_assoc], ?_, hrest⟩
  rw [List.length_append, Token.stop, hstart, Nat.add_assoc]

theorem Reading.exists_behind {pos : Nat} {cs : List Char} {before after : List Token} {t : Token}
    (h : Reading pos cs (before ++ t :: after)) :
    ∃ front back, cs = front ++ back ∧ pos + front.length = t.stop ∧ Reading t.stop back after := by
  induction before generalizing pos cs with
  | nil => exact h.exists_behind_head
  | cons u before ih =>
    obtain ⟨front, back, rfl, hstop, hback⟩ := h.exists_behind_head
    obtain ⟨front', back', rfl, hstop', hback'⟩ := ih hback
    exact ⟨front ++ front', back', by rw [List.append_assoc], by rw [List.length_append]; omega, hback'⟩

/-! ## 2. The yard in a group -/

namespace Token

variable {f : Nat → Nat} {o : Token} {p : Token → Bool}

-- Over an entry that does not pass a test, the test finds the same entries as over the bottom.
theorem takeWhile_relocate_append (hp : ∀ t : Token, p (t.relocate f) = p t) (ho : p o = false)
    (ts rest : List Token) :
    (ts.map (relocate f) ++ o :: rest).takeWhile p = (ts.takeWhile p).map (relocate f) := by
  induction ts with
  | nil => simp [ho]
  | cons t ts ih =>
    cases ht : p t with
    | true => simp [hp, ht, ih]
    | false => simp [hp, ht]

theorem dropWhile_relocate_append (hp : ∀ t : Token, p (t.relocate f) = p t) (ho : p o = false)
    (ts rest : List Token) :
    (ts.map (relocate f) ++ o :: rest).dropWhile p = (ts.dropWhile p).map (relocate f) ++ o :: rest := by
  induction ts with
  | nil => simp [ho]
  | cons t ts ih =>
    cases ht : p t with
    | true => simp [hp, ht, ih]
    | false => simp [hp, ht]

end Token

namespace Yard

/-- The yard `z` of a text that stands `k` characters further on, in the group that `o` opened in `y`. -/
def within (y : Yard) (o : Token) (k : Nat) (z : Yard) : Yard where
  pos := z.pos + k
  output := y.output ++ z.output.map (Token.relocate (· + k))
  waiting := z.waiting.map (Token.relocate (· + k)) ++ o :: y.waiting
  operators := y.operators + z.operators
  numbers := y.numbers + z.numbers

variable {y z : Yard} {o t : Token} {k : Nat} {ts : List Token}

section

variable {p : Token → Bool} (hp : ∀ t : Token, p (t.relocate (· + k)) = p t) (ho : p o = false)

include hp ho

theorem takeWhile_within :
    (y.within o k z).waiting.takeWhile p = (z.waiting.takeWhile p).map (Token.relocate (· + k)) :=
  Token.takeWhile_relocate_append hp ho _ _

theorem dropWhile_within :
    (y.within o k z).waiting.dropWhile p =
      (z.waiting.dropWhile p).map (Token.relocate (· + k)) ++ o :: y.waiting :=
  Token.dropWhile_relocate_append hp ho _ _

end

theorem complaint?_within (hz : z.complaint? t = none) :
    (y.within o k z).complaint? (t.relocate (· + k)) = none := by
  unfold complaint? at hz ⊢
  rw [show (t.relocate (· + k)).lexeme = t.lexeme from rfl]
  cases ht : t.lexeme with
  | closing =>
    rw [ht] at hz
    have hany : z.waiting.any Token.opens = true := by simpa using hz
    have hwithin : (y.within o k z).waiting.any Token.opens = true := by
      rw [within, List.any_append, List.any_map]
      rw [show Token.opens ∘ Token.relocate (· + k) = Token.opens from rfl, hany, Bool.true_or]
    rw [hwithin]
    rfl
  | invalid c =>
    rw [ht] at hz
    contradiction
  | number literal => rfl
  | operator op => rfl
  | opening => rfl

-- The opening parenthesis of the group does for it what the bottom of the stack does for a text.
theorem absorb_within (ho : o.opens = true) (hz : z.complaint? t = none) :
    (y.within o k z).absorb (t.relocate (· + k)) = y.within o k (z.absorb t) := by
  cases ht : t.lexeme with
  | number literal =>
    rw [absorb_of_number (t := t.relocate (· + k)) ht, absorb_of_number ht]
    simp only [within, Token.stop_relocate_add, List.map_append, List.append_assoc]
    rfl
  | operator op =>
    have hsettles := Token.settles_of_opens ho op
    rw [absorb_of_operator (t := t.relocate (· + k)) ht, absorb_of_operator ht,
      takeWhile_within (fun _ => rfl) hsettles, dropWhile_within (fun _ => rfl) hsettles]
    simp only [within, Token.stop_relocate_add, List.map_append, List.append_assoc]
    rfl
  | opening =>
    rw [absorb_of_opening (t := t.relocate (· + k)) ht, absorb_of_opening ht]
    simp only [within, Token.stop_relocate_add]
    rfl
  | closing =>
    have hopens : (!o.opens) = false := by rw [ho]; rfl
    -- the text opened the group that it closes, so the parenthesis does not get to `o`
    have hne : z.waiting.dropWhile (!·.opens) ≠ [] := by
      rw [complaint?, ht] at hz
      have hany : z.waiting.any Token.opens = true := by simpa using hz
      obtain ⟨w, rest, hdrop, -⟩ := Token.exists_dropWhile_opens hany
      rw [hdrop]
      exact List.cons_ne_nil w rest
    rw [absorb_of_closing (t := t.relocate (· + k)) ht, absorb_of_closing ht,
      takeWhile_within (p := (!Token.opens ·)) (fun _ => rfl) hopens,
      dropWhile_within (p := (!Token.opens ·)) (fun _ => rfl) hopens,
      List.tail_append_of_ne_nil (by simpa using hne)]
    simp only [within, Token.stop_relocate_add, List.map_append, List.append_assoc, List.map_tail]
  | invalid c =>
    rw [complaint?, ht] at hz
    contradiction

end Yard

/-- The move in the group that `o` opened in `y`. -/
def Move.within (y : Yard) (o : Token) (k : Nat) (m : Move) : Move :=
  ⟨m.position + k, m.token.relocate (· + k), m.action, y.within o k m.after⟩

namespace Yard

variable {y z : Yard} {o u : Token} {k : Nat} {ts : List Token}

theorem absorbAll_within (ho : o.opens = true) (h : (z.absorbAll ts).fault = none) :
    (y.within o k z).absorbAll (ts.map (Token.relocate (· + k))) =
      ⟨(z.absorbAll ts).moves.map (Move.within y o k), y.within o k (z.absorbAll ts).last, none⟩ := by
  induction ts generalizing z with
  | nil => rfl
  | cons t ts ih =>
    obtain ⟨hcomplaint, hrest, hcons⟩ := absorbAll_cons h
    rw [hcons, List.map_cons, absorbAll, complaint?_within hcomplaint, absorb_within ho hcomplaint]
    dsimp only
    rw [ih hrest, Course.cons, Course.cons, List.map_cons, Move.within, Token.start_relocate]
    rfl

/-- The yard behind a group in `y` that ends at `stop`, where `z` is the yard of the text in the group. -/
def behindGroup (y : Yard) (k stop : Nat) (z : Yard) : Yard where
  pos := stop
  output := y.output ++ (z.output ++ z.waiting).map (Token.relocate (· + k))
  waiting := y.waiting
  operators := y.operators + z.operators
  numbers := y.numbers + z.numbers

theorem map_text_behindGroup (y z : Yard) (k stop : Nat) :
    (y.behindGroup k stop z).output.map Token.text =
      y.output.map Token.text ++ (z.output ++ z.waiting).map Token.text := by
  rw [behindGroup, List.map_append, Token.map_text_relocate]

-- The closing parenthesis sends what the end of the text would drain.
theorem absorb_closing_within (ho : o.opens = true) (hu : u.lexeme = .closing)
    (hclosed : z.waiting.any Token.opens = false) :
    (y.within o k z).complaint? u = none ∧ (y.within o k z).absorb u = y.behindGroup k u.stop z := by
  have hopens : (!o.opens) = false := by rw [ho]; rfl
  obtain ⟨htake, hdrop⟩ := Token.takeWhile_of_not_opens hclosed
  constructor
  · have hany : (y.within o k z).waiting.any Token.opens = true := by simp [within, ho]
    rw [complaint?, hu, hany]
    rfl
  · rw [absorb_of_closing hu, takeWhile_within (p := (!Token.opens ·)) (fun _ => rfl) hopens,
      dropWhile_within (p := (!Token.opens ·)) (fun _ => rfl) hopens, htake, hdrop]
    simp only [within, behindGroup, List.map_append, List.append_assoc, List.map_nil, List.nil_append,
      List.tail_cons]

theorem absorbAll_group (y : Yard) (p q : Nat) (h : (empty.absorbAll ts).fault = none)
    (hclosed : (empty.absorbAll ts).last.waiting.any Token.opens = false) :
    y.absorbAll (⟨p, .opening⟩ :: (ts.map (Token.relocate (· + (p + 1))) ++ [⟨q, .closing⟩])) =
      ⟨⟨p, ⟨p, .opening⟩, .opening, y.absorb ⟨p, .opening⟩⟩ ::
          ((empty.absorbAll ts).moves.map (Move.within y ⟨p, .opening⟩ (p + 1)) ++
            [⟨q, ⟨q, .closing⟩, .closing, y.behindGroup (p + 1) (q + 1) (empty.absorbAll ts).last⟩]),
        y.behindGroup (p + 1) (q + 1) (empty.absorbAll ts).last, none⟩ := by
  have hopens : (⟨p, .opening⟩ : Token).opens = true := rfl
  -- behind its opening parenthesis the group starts as a text does
  have hstart : y.absorb ⟨p, .opening⟩ = y.within ⟨p, .opening⟩ (p + 1) empty := by
    rw [absorb_of_opening rfl]
    simp only [within, empty, List.map_nil, List.append_nil, List.nil_append, Nat.zero_add]
    rfl
  obtain ⟨hcomplaint, habsorb⟩ := absorb_closing_within (y := y) (k := p + 1) (u := ⟨q, .closing⟩) hopens rfl
    hclosed
  rw [absorbAll, complaint?, absorbAll_append, hstart, absorbAll_within hopens h,
    Course.andThen_of_no_fault rfl]
  dsimp only
  rw [absorbAll, hcomplaint, habsorb]
  rfl

end Yard

/-! ## 3. Texts that are converted -/

namespace Yard

/-- The tokens `ts` of a text lead to the yard `z`, which has what it takes to end well: no group is open,
and there are more numbers than operators. -/
structure Completes (ts : List Token) (z : Yard) : Prop where
  leads : Leads empty ts z
  closed : z.waiting.any Token.opens = false
  counts : z.operators < z.numbers

theorem completes_of_convert {ts : List Token} {stop : Nat} (h : (empty.convert ts stop).fault = none) :
    Completes ts (empty.absorbAll ts).last := by
  obtain ⟨hfault, hclosed, -⟩ := output_convert h
  refine ⟨⟨hfault, rfl⟩, hclosed, ?_⟩
  rw [convert, Course.andThen_of_no_fault hfault] at h
  dsimp only at h
  rw [conclude] at h
  split at h
  · contradiction
  · rename_i hcounts
    exact Nat.lt_of_not_le hcounts

theorem Completes.convert {ts : List Token} {z : Yard} (h : Completes ts z) (stop : Nat) :
    (empty.convert ts stop).fault = none ∧ (empty.convert ts stop).last =
      { z.pass stop with output := z.output ++ z.waiting, waiting := [] } :=
  h.leads.convert h.closed h.counts stop

theorem Completes.leads_group {ts : List Token} {z : Yard} (h : Completes ts z) (y : Yard) (p q : Nat) :
    Leads y (⟨p, .opening⟩ :: (ts.map (Token.relocate (· + (p + 1))) ++ [⟨q, .closing⟩]))
      (y.behindGroup (p + 1) (q + 1) z) := by
  obtain ⟨hfault, rfl⟩ := h.leads
  rw [Leads, absorbAll_group y p q hfault h.closed]
  exact ⟨rfl, rfl⟩

theorem Completes.group {ts : List Token} {z : Yard} (h : Completes ts z) (p q : Nat) :
    ∃ v, Completes (⟨p, .opening⟩ :: (ts.map (Token.relocate (· + (p + 1))) ++ [⟨q, .closing⟩])) v ∧
      (v.output ++ v.waiting).map Token.text = (z.output ++ z.waiting).map Token.text := by
  refine ⟨_, ⟨h.leads_group empty p q, rfl, ?_⟩, ?_⟩
  · have hcounts := h.counts
    simp only [behindGroup, empty]
    omega
  · rw [List.map_append, map_text_behindGroup]
    exact List.append_nil _

theorem Completes.two_groups {ts us : List Token} {z w : Yard} (h : Completes ts z) (h' : Completes us w)
    (op : Operator) (p q r p' q' : Nat) :
    ∃ v, Completes (⟨p, .opening⟩ :: (ts.map (Token.relocate (· + (p + 1))) ++ ⟨q, .closing⟩ :: ⟨r, .operator op⟩ ::
        ⟨p', .opening⟩ :: (us.map (Token.relocate (· + (p' + 1))) ++ [⟨q', .closing⟩]))) v ∧
      (v.output ++ v.waiting).map Token.text =
        (z.output ++ z.waiting).map Token.text ++ (w.output ++ w.waiting).map Token.text ++
          [op.symbol] := by
  -- behind the first group nothing waits, so the operator is alone on the stack
  have hbetween : (empty.behindGroup (p + 1) (q + 1) z).absorb ⟨r, .operator op⟩ =
      ⟨r + 1, (z.output ++ z.waiting).map (Token.relocate (· + (p + 1))), [⟨r, .operator op⟩], z.operators + 1,
        z.numbers⟩ := by
    rw [absorb_of_operator rfl]
    simp only [behindGroup, empty, List.takeWhile_nil, List.dropWhile_nil, List.append_nil, List.nil_append,
      Nat.zero_add]
    rfl
  have hoperator : Leads (empty.behindGroup (p + 1) (q + 1) z) [⟨r, .operator op⟩] _ :=
    leads_of_complaint rfl
  have hleads := (h.leads_group empty p q).append (hoperator.append (h'.leads_group _ p' q'))
  rw [hbetween] at hleads
  simp only [List.cons_append, List.append_assoc, List.nil_append] at hleads
  refine ⟨_, ⟨hleads, rfl, ?_⟩, ?_⟩
  · have hcounts := h.counts
    have hcounts' := h'.counts
    simp only [behindGroup]
    omega
  · simp only [behindGroup, List.map_append, Token.map_text_relocate, List.map_cons, List.map_nil,
      List.append_assoc]
    rfl

end Yard

section

variable {s : String} {ts : List Token} {z : Yard} {out : List String} (reading : Reading 0 s.toList ts)

include reading

theorem toReversePolish_iff_completes :
    toReversePolish s = .ok out ↔
      ∃ z, Yard.Completes ts z ∧ (z.output ++ z.waiting).map Token.text = out := by
  have hresult := toReversePolish_eq reading
  constructor
  · intro h
    cases hfault : (Yard.empty.convert ts s.toList.length).fault with
    | none =>
      have hz := Yard.completes_of_convert hfault
      obtain ⟨-, hlast⟩ := hz.convert s.toList.length
      rw [h, hfault, hlast] at hresult
      exact ⟨_, hz, (Except.ok.inj hresult).symm⟩
    | some d =>
      rw [h, hfault] at hresult
      contradiction
  · rintro ⟨z, hz, rfl⟩
    obtain ⟨hfault, hlast⟩ := hz.convert s.toList.length
    rw [hresult, hfault, hlast]

theorem finish_of_completes (h : Yard.Completes ts z) :
    (finish s).operators = z.operators ∧ (finish s).numbers = z.numbers := by
  obtain ⟨hfault, hlast⟩ := h.convert s.toList.length
  rw [finish, run_eq reading, Converter.ending_of_silent Converter.silent_none, hfault, hlast]
  exact ⟨rfl, rfl⟩

end

/-! ## 4. The converter in a group -/

/-- The event in a group that starts `k` characters further on and was opened where the converter is `c`. -/
def Event.inGroup (c : Converter) (k : Nat) (e : Event) : Event :=
  ⟨e.position + k, e.token, e.action, c.output.toList ++ e.output, e.stack ++ opening :: c.stack.entries⟩

/-- Between `c` and `d` the text `s`, which gives the output `out`, is read in parentheses, of which the
opening one has position `start`.  That output is added, the stack is as it was, what the text counts is
counted, and the events on the way are those of the text, up to where it drains its stack, over what was there
before. -/
structure Converter.ReadsGroup (c : Converter) (start : Nat) (s : String) (out : List String)
    (d : Converter) : Prop where
  output : d.output.toList = c.output.toList ++ out
  stack : d.stack = c.stack
  operators : d.operators = c.operators + (finish s).operators
  numbers : d.numbers = c.numbers + (finish s).numbers
  pos : d.pos = start + (s.length + 2)
  log : d.log.toList = c.log.toList ++
    ⟨start, opening, .opening, c.output.toList, opening :: c.stack.entries⟩ ::
      (((events s).filter fun e => e.action ≠ .drain).map (Event.inGroup c (start + 1)) ++
        [⟨start + 1 + s.length, closing, .closing, c.output.toList ++ out, c.stack.entries⟩])

namespace Converter

variable {s : String} {watch : Option Observer} {c : Converter}

-- Wherever a conversion has got to in its text, it holds a yard.
theorem exists_holding_of_forM {before after : List Token}
    (order : InOrder 0 s.toList.length (before ++ after))
    (h : (before.forM (absorb watch) : Conversion Unit) (ofString s).start = .ok () c) :
    ∃ y es p, c = (ofString s).start.holding y es ∧ (∀ w ∈ y.waiting, w.waits = true) ∧ y.size ≤ p ∧
      InOrder p s.toList.length after := by
  obtain ⟨p, hbefore, hafter⟩ := order.exists_append
  have hle : (p : Int) ≤ s.toList.length := by exact_mod_cast hafter.le
  have hstart : (ofString s).start.holding Yard.empty [] = (ofString s).start := rfl
  have hcourse := absorbAll_holding (c := (ofString s).start) (y := Yard.empty) watch [] hbefore
    (by simp [Yard.empty]) (Nat.le_refl 0) hle hle
  rw [hstart, h] at hcourse
  obtain ⟨hfault, hc⟩ := eq_of_ending hcourse.symm
  refine ⟨_, _, p, hc, Yard.waits_absorbAll before (by simp [Yard.empty]), ?_, hafter⟩
  have hsize := Yard.size_absorbAll_le (y := Yard.empty) (k := 0) hbefore (Nat.le_refl 0) hfault
  rwa [Nat.zero_add] at hsize

theorem forM_absorb_holding {y : Yard} {p : Nat} {ts after : List Token} (es : List Event)
    (silent : Silent watch) (waits : ∀ w ∈ y.waiting, w.waits = true) (hsize : y.size ≤ p)
    (order : InOrder p s.toList.length (ts ++ after)) (hfault : (y.absorbAll ts).fault = none) :
    (ts.forM (absorb watch) : Conversion Unit) ((ofString s).start.holding y es) =
      .ok () ((ofString s).start.holding (y.absorbAll ts).last
        (es ++ (y.absorbAll ts).moves.map (Move.event []))) := by
  obtain ⟨q, hts, hafter⟩ := order.exists_append
  have hle : (q : Int) ≤ s.toList.length := by exact_mod_cast hafter.le
  have hroom : (ofString s).start.output.size + y.size ≤ p := by
    rw [show (ofString s).start.output.size = 0 from rfl]
    omega
  rw [absorbAll_holding watch es hts waits hroom hle hle, ending_of_silent silent, hfault]
  rfl

-- The moves in a group are reported as those of the text in it, over what was there before.
theorem map_event_within {y : Yard} {es : List Event} {o : Token} (ho : o.lexeme = .opening) (k : Nat)
    (moves : List Move) :
    (moves.map (Move.within y o k)).map (Move.event []) =
      (moves.map (Move.event [])).map (Event.inGroup ((ofString s).start.holding y es) k) := by
  have hopening : o.text = opening := by rw [Token.text, ho]; rfl
  have houtput : ((ofString s).start.holding y es).output.toList = y.output.map Token.text :=
    toList_output_holding
  rw [List.map_map, List.map_map]
  apply List.map_congr_left
  intro m _
  simp only [Function.comp_apply, Move.event, Move.within, Event.inGroup, Yard.within, List.nil_append,
    List.map_append, List.map_cons, Token.map_text_relocate, Token.text_relocate, hopening, houtput]
  rfl

theorem exists_readsGroup {text : String} {y z : Yard} {start p : Nat} {ts after : List Token}
    (es : List Event) (reading : Reading 0 s.toList ts) (h : Yard.Completes ts z)
    (silent : Silent watch) (waits : ∀ w ∈ y.waiting, w.waits = true) (hsize : y.size ≤ p)
    (order : InOrder p text.toList.length (⟨start, .opening⟩ ::
      (ts.map (Token.relocate (· + (start + 1))) ++ [⟨start + 1 + s.length, .closing⟩]) ++ after)) :
    ∃ d, ((⟨start, .opening⟩ :: (ts.map (Token.relocate (· + (start + 1))) ++
        [⟨start + 1 + s.length, .closing⟩])).forM (absorb watch) : Conversion Unit)
          ((ofString text).start.holding y es) = .ok () d ∧
      ReadsGroup ((ofString text).start.holding y es) start s ((z.output ++ z.waiting).map Token.text) d := by
  obtain ⟨hoperators, hnumbers⟩ := finish_of_completes reading h
  obtain ⟨hfault, rfl⟩ := h.leads
  have hgroup := Yard.absorbAll_group y start (start + 1 + s.length) hfault h.closed
  have hrun := forM_absorb_holding es silent waits hsize order (by rw [hgroup])
  have houtput : ((ofString text).start.holding y es).output.toList = y.output.map Token.text :=
    toList_output_holding
  have hclosing := Yard.map_text_behindGroup y (Yard.empty.absorbAll ts).last (start + 1)
    (start + 1 + s.length + 1)
  rw [hgroup] at hrun
  refine ⟨_, hrun, ?_, rfl, ?_, ?_, ?_, ?_⟩
  · rw [houtput, toList_output_holding, ← hclosing]
    rfl
  · rw [hoperators]
    rfl
  · rw [hnumbers]
    rfl
  · show start + 1 + s.length + 1 = start + (s.length + 2)
    omega
  · rw [houtput, filter_events_ne_drain reading, ← map_event_within (o := ⟨start, .opening⟩) rfl,
      ← hclosing]
    simp only [holding, List.map_cons, List.map_append, List.append_assoc]
    rfl

end Converter

/-! ## 5. Texts -/

theorem toList_group (u s v : String) :
    (u ++ "(" ++ s ++ ")" ++ v).toList = u.toList ++ '(' :: (s.toList ++ ')' :: v.toList) := by
  simp only [String.toList_append, List.append_assoc]
  rfl

-- A text in parentheses is read as it is alone.
theorem Reading.inGroup {cs rest : List Char} {ts us : List Token} (h : Reading 0 cs ts) (pos : Nat)
    (hrest : Reading (pos + cs.length + 1) rest us) :
    Reading pos (cs ++ ')' :: rest)
      (ts.map (Token.relocate (· + pos)) ++ ⟨pos + cs.length, .closing⟩ :: us) := by
  have hshift := h.relocate_add pos
  rw [Nat.zero_add] at hshift
  exact hshift.append (by simp) (.closing hrest)

-- Where a group stands in a text, its tokens are those of the text in it.
theorem Reading.after_opening {u s v : String} {ts before after : List Token} (h : Reading 0 s.toList ts)
    (reading : Reading 0 (u ++ "(" ++ s ++ ")" ++ v).toList (before ++ ⟨u.length, .opening⟩ :: after)) :
    after = ts.map (Token.relocate (· + (u.length + 1))) ++ ⟨u.length + 1 + s.length, .closing⟩ ::
      scan (u.length + 1 + s.length + 1) v.toList := by
  obtain ⟨front, back, hsplit, hstop, hback⟩ := reading.exists_behind
  have hlength : (u.toList ++ ['(']).length = front.length := by
    rw [List.length_append, List.length_singleton, String.length_toList]
    change 0 + front.length = u.length + 1 at hstop
    omega
  rw [toList_group, List.append_cons] at hsplit
  obtain ⟨-, rfl⟩ := List.append_inj hsplit hlength
  rw [hback.eq_scan, ← String.length_toList (s := s)]
  exact (h.inGroup _ (reading_scan _ _)).eq_scan.symm

theorem toReversePolish_parens {s : String} {out : List String} (h : toReversePolish s = .ok out) :
    toReversePolish ("(" ++ s ++ ")") = .ok out := by
  obtain ⟨ts, hts⟩ : ∃ ts, Reading 0 s.toList ts := ⟨_, reading_scan _ _⟩
  obtain ⟨z, hz, rfl⟩ := (toReversePolish_iff_completes hts).1 h
  have hchars : ("(" ++ s ++ ")").toList = '(' :: (s.toList ++ [')']) := by
    simp only [String.toList_append]
    rfl
  have reading := Reading.opening (hts.inGroup (0 + 1) .done)
  rw [← hchars] at reading
  exact (toReversePolish_iff_completes reading).2 (hz.group _ _)

theorem toReversePolish_two_groups {s t : String} {out out' : List String}
    (h : toReversePolish s = .ok out) (h' : toReversePolish t = .ok out') (op : Operator) :
    toReversePolish ("(" ++ s ++ ") " ++ op.symbol ++ " (" ++ t ++ ")") =
      .ok (out ++ out' ++ [op.symbol]) := by
  obtain ⟨ts, hts⟩ : ∃ ts, Reading 0 s.toList ts := ⟨_, reading_scan _ _⟩
  obtain ⟨us, hus⟩ : ∃ us, Reading 0 t.toList us := ⟨_, reading_scan _ _⟩
  obtain ⟨z, hz, rfl⟩ := (toReversePolish_iff_completes hts).1 h
  obtain ⟨w, hw, rfl⟩ := (toReversePolish_iff_completes hus).1 h'
  have hchars : ("(" ++ s ++ ") " ++ op.symbol ++ " (" ++ t ++ ")").toList =
      '(' :: (s.toList ++ ')' :: ' ' :: op.char :: ' ' :: '(' :: (t.toList ++ [')'])) := by
    simp only [String.toList_append, List.append_assoc, Operator.symbol, String.toList_singleton]
    rfl
  have reading := Reading.opening (hts.inGroup (0 + 1)
    (.space (.operator op (.space (.opening (hus.inGroup _ .done))))))
  rw [← hchars] at reading
  exact (toReversePolish_iff_completes reading).2 (hz.two_groups hw op _ _ _ _ _)

/-- A text that is converted has the same form in parentheses, wherever these stand in a text and whatever
follows them: from where it gets to the opening one, the conversion goes on to the closing one as in the text
alone. -/
theorem toReversePolish_group {s : String} {out : List String} (h : toReversePolish s = .ok out) :
    (∀ (u v : String) (before after : List Token) (watch : Option Observer) (c : Converter),
      Reading 0 (u ++ "(" ++ s ++ ")" ++ v).toList (before ++ ⟨u.length, .opening⟩ :: after) →
      Converter.Silent watch →
      (before.forM (Converter.absorb watch) : Conversion Unit)
        (Converter.ofString (u ++ "(" ++ s ++ ")" ++ v)).start = .ok () c →
      ∃ inside rest d, Reading (u.length + 1) s.toList inside ∧
        after = inside ++ ⟨u.length + 1 + s.length, .closing⟩ :: rest ∧
        ((⟨u.length, .opening⟩ :: (inside ++ [⟨u.length + 1 + s.length, .closing⟩])).forM
          (Converter.absorb watch) : Conversion Unit) c = .ok () d ∧
        c.ReadsGroup u.length s out d) ∧
      toReversePolish ("(" ++ s ++ ")") = .ok out ∧
      ∀ (t : String) (out' : List String) (op : Operator), toReversePolish t = .ok out' →
        toReversePolish ("(" ++ s ++ ") " ++ op.symbol ++ " (" ++ t ++ ")") =
          .ok (out ++ out' ++ [op.symbol]) := by
  obtain ⟨ts, hts⟩ : ∃ ts, Reading 0 s.toList ts := ⟨_, reading_scan _ _⟩
  refine ⟨?_, toReversePolish_parens h, fun t out' op h' => toReversePolish_two_groups h h' op⟩
  intro u v before after watch c reading silent hrun
  obtain ⟨z, hz, rfl⟩ := (toReversePolish_iff_completes hts).1 h
  have order := reading.inOrder
  rw [Nat.zero_add] at order
  obtain ⟨y, es, p, rfl, hwaits, hsize, hafter⟩ := Converter.exists_holding_of_forM order hrun
  have hinside := hts.relocate_add (u.length + 1)
  rw [Nat.zero_add] at hinside
  have htokens := hts.after_opening reading
  rw [htokens, List.append_cons (ts.map _), ← List.cons_append] at hafter
  obtain ⟨d, hd, hgroup⟩ := Converter.exists_readsGroup es hts hz silent hwaits hsize hafter
  exact ⟨_, _, d, hinside, htokens, hd, hgroup⟩

/-- A text that has no value, inside a text that is refused in the end. -/
theorem toReversePolish_group_refused :
    toReversePolish "1 2 +" = .ok ["1", "2", "+"] ∧
      toReversePolish "3 * (1 2 +) ^ (" = .error (.malformed (.invalidOperatorCount 3 3 15)) ∧
      (∃ c inside d, ([⟨0, .number ['3']⟩, ⟨2, .operator .mul⟩].forM (Converter.absorb none) : Conversion Unit)
          (Converter.ofString "3 * (1 2 +) ^ (").start = .ok () c ∧
        c.output.toList = ["3"] ∧ c.stack.entries = ["*"] ∧
        ((⟨4, .opening⟩ :: (inside ++ [⟨10, .closing⟩])).forM (Converter.absorb none) : Conversion Unit) c =
          .ok () d ∧
        c.ReadsGroup 4 "1 2 +" ["1", "2", "+"] d) ∧
      toReversePolish "(1 2 +)" = .ok ["1", "2", "+"] ∧
      toReversePolish "(1 2 +) ^ (1 2 +)" = .ok ["1", "2", "+", "1", "2", "+", "^"] := by
  have hs : toReversePolish "1 2 +" = .ok ["1", "2", "+"] := by decide +kernel
  have hscan : scan 0 "3 * (1 2 +) ^ (".toList =
      [⟨0, .number ['3']⟩, ⟨2, .operator .mul⟩] ++ ⟨4, .opening⟩ :: [⟨5, .number ['1']⟩,
        ⟨7, .number ['2']⟩, ⟨9, .operator .add⟩, ⟨10, .closing⟩, ⟨12, .operator .pow⟩, ⟨14, .opening⟩] := by
    decide +kernel
  have reading := reading_scan 0 "3 * (1 2 +) ^ (".toList
  rw [hscan] at reading
  obtain ⟨hgroup, hparens, htwo⟩ := toReversePolish_group hs
  have hinstance := hgroup "3 * " " ^ (" [⟨0, .number ['3']⟩, ⟨2, .operator .mul⟩]
  rw [show "3 * " ++ "(" ++ "1 2 +" ++ ")" ++ " ^ (" = "3 * (1 2 +) ^ (" by decide] at hinstance
  obtain ⟨inside, rest, d, -, -, hrun, hd⟩ := hinstance _ none _ reading Converter.silent_none rfl
  have htwo' := htwo "1 2 +" _ .pow hs
  rw [show "(" ++ "1 2 +" ++ ") " ++ Operator.pow.symbol ++ " (" ++ "1 2 +" ++ ")" =
    "(1 2 +) ^ (1 2 +)" by decide] at htwo'
  rw [show "(" ++ "1 2 +" ++ ")" = "(1 2 +)" by decide] at hparens
  exact ⟨hs, by decide +kernel, ⟨_, inside, d, rfl, rfl, rfl, hrun, hd⟩, hparens, htwo'⟩

end ReversePolish
