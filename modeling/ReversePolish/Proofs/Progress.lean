import ReversePolish.Proofs.Frame
import ReversePolish.Proofs.Reading
import ReversePolish.Proofs.SingleMoves

/-!
# Progress — the text is read in rounds, and each round goes on in it

The text may be read as a loop that looks at one character and makes the move that it calls for.  Every round
that does not fail leaves the position further on in the text, so from any state there are no more rounds than
characters left; and what the loop does is what absorbing the tokens of the text does.  The rest of a number is
read by a loop of its own, one character a round.
-/

namespace ReversePolish

namespace Converter

variable {c d : Converter} {watch : Option Observer}

/-! ## 1. Loops -/

/-- `Rounds test body n c r`: while `test` holds, `body` is made again; begun in the state `c`, this is `n`
times, a last one that fails included, and ends as `r` tells. -/
inductive Rounds (test : Converter → Bool) (body : Conversion Unit) :
    Nat → Converter → EStateM.Result Fault Converter Unit → Prop where
  | done {c : Converter} : test c = false → Rounds test body 0 c (.ok () c)
  | next {c d : Converter} {n : Nat} {r : EStateM.Result Fault Converter Unit} :
      test c = true → body c = .ok () d → Rounds test body n d r → Rounds test body (n + 1) c r
  | failed {c d : Converter} {e : Fault} :
      test c = true → body c = .error e d → Rounds test body 1 c (.error e d)

section

variable {test : Converter → Bool} {body : Conversion Unit} {n m : Nat}
  {r r' : EStateM.Result Fault Converter Unit}

theorem Rounds.unique (h : Rounds test body n c r) (h' : Rounds test body m c r') : m = n ∧ r' = r := by
  induction h generalizing m with
  | done htest =>
    cases h' with
    | done => exact ⟨rfl, rfl⟩
    | next htest' | failed htest' => simp [htest] at htest'
  | next htest hbody _ ih =>
    cases h' with
    | done htest' => simp [htest] at htest'
    | next _ hbody' hrest =>
      cases hbody.symm.trans hbody'
      obtain ⟨rfl, rfl⟩ := ih hrest
      exact ⟨rfl, rfl⟩
    | failed _ hbody' => cases hbody.symm.trans hbody'
  | failed htest hbody =>
    cases h' with
    | done htest' => simp [htest] at htest'
    | next _ hbody' => cases hbody.symm.trans hbody'
    | failed _ hbody' =>
      cases hbody.symm.trans hbody'
      exact ⟨rfl, rfl⟩

end

/-! ## 2. Numbers -/

/-- Whether a character stands at the position over which a number goes on. -/
def inNumber (c : Converter) : Bool := c.text[c.pos]?.any continuesNumber

theorem prefix_numberRun_iff {front cs : List Char} :
    front <+: numberRun cs ↔ front <+: cs ∧ ∀ ch ∈ front, ch ≠ ' ' ∧ ch ≠ ')' := by
  constructor
  · intro h
    exact ⟨h.trans (List.takeWhile_prefix _), fun ch hch => forall_mem_numberRun cs ch (h.mem hch)⟩
  · rintro ⟨⟨rest, rfl⟩, hfront⟩
    have hall : ∀ ch ∈ front, continuesNumber ch = true := fun ch hch => continuesNumber_iff.2 (hfront ch hch)
    rw [numberRun, List.takeWhile_append_of_pos hall]
    exact List.prefix_append _ _

theorem length_numberRun_le (cs : List Char) : (numberRun cs).length ≤ cs.length :=
  (List.takeWhile_prefix _).length_le

theorem drop_eq_cons {ch : Char} {cs : List Char} (h : c.text.drop c.pos = ch :: cs) :
    c.text[c.pos]? = some ch ∧ c.text.drop (c.pos + 1) = cs := by
  constructor
  · rw [← List.head?_drop, h]
    rfl
  · rw [← List.tail_drop, h]
    rfl

-- The number is passed in one round for each of its characters.
theorem rounds_number (c : Converter) :
    Rounds inNumber (advance none) (numberRun (c.text.drop c.pos)).length c
      (.ok () { c with pos := c.pos + (numberRun (c.text.drop c.pos)).length }) := by
  generalize hcs : c.text.drop c.pos = cs
  induction cs generalizing c with
  | nil =>
    refine .done ?_
    rw [inNumber, ← List.head?_drop, hcs]
    rfl
  | cons ch cs ih =>
    obtain ⟨hch, hrest⟩ := drop_eq_cons hcs
    cases hgoes : continuesNumber ch with
    | false =>
      rw [numberRun, List.takeWhile_cons_of_neg (by simp [hgoes])]
      refine .done ?_
      rw [inNumber, hch]
      exact hgoes
    | true =>
      rw [numberRun, List.takeWhile_cons_of_pos hgoes, List.length_cons, ← Nat.add_assoc, Nat.add_right_comm]
      refine .next ?_ advance_none (ih { c with pos := c.pos + 1 } hrest)
      rw [inNumber, hch]
      exact hgoes

/-! ## 3. One round -/

def inText (c : Converter) : Bool := decide (c.pos < c.text.length)

/-- Makes the move that the character `ch` at the position `start` calls for. -/
def respond (watch : Option Observer) (start : Nat) (ch : Char) : Conversion Unit := do
  if ch = separator then
    advance (some (String.singleton separator))
  else if ch ∈ digits then
    let literal ← readNumber
    enqueue literal
    record watch start literal .number
  else if (Operator.ofChar? ch).isSome then
    modify fun c => { c with operators := c.operators + 1 }
    placeOperator watch
  else if ch = openingChar then
    push opening
    advance none
    record watch ((← get).pos - 1) opening .opening
  else if ch = closingChar then
    closeGroup watch
  else
    throw (.malformed (.invalidToken ch start))

def look (watch : Option Observer) : Conversion Unit := do
  let start := (← get).pos
  respond watch start (← current)

theorem look_eq {ch : Char} (h : c.text[c.pos]? = some ch) : look watch c = respond watch c.pos ch c := by
  rw [look, bind_get, bind_of_ok (current_of_some h)]

theorem look_of_space (h : c.text[c.pos]? = some ' ') : look watch c = .ok () { c with pos := c.pos + 1 } := by
  rw [look_eq h, respond, if_pos (by rfl)]
  refine (bind_of_ok (current_of_some h) _).trans ?_
  rw [if_neg (by decide)]
  rfl

theorem readNumber_of_stands {d : Char} {run rest : List Char} (htext : c.text.drop c.pos = d :: (run ++ rest))
    (hd : d ∈ digits) (hrun : ∀ ch ∈ run, ch ≠ ' ' ∧ ch ≠ ')') (hrest : ∀ ch ∈ rest.head?, ch = ' ' ∨ ch = ')') :
    readNumber c = .ok (String.ofList (d :: run)) { c with
      pos := c.pos + (d :: run).length
      numbers := c.numbers + 1 } := by
  have hall : ∀ ch ∈ d :: run, ch ≠ ' ' ∧ ch ≠ ')' :=
    List.forall_mem_cons.2 ⟨continuesNumber_iff.1 (continuesNumber_of_mem_digits hd), hrun⟩
  rw [readNumber, htext, ← List.cons_append, numberRun_append hall hrest]

-- A token is absorbed in one round from the position where it stands.
theorem look_of_token {t : Token} {rest : List Char} (hstart : t.start = c.pos)
    (htext : c.text.drop c.pos = t.lexeme.chars ++ rest) (hstands : t.lexeme.Stands rest) :
    look watch c = absorb watch t c := by
  obtain ⟨start, lexeme⟩ := t
  obtain rfl : start = c.pos := hstart
  cases hstands with
  | @number d run rest hd hrun hrest =>
    have hspace : d ≠ separator := fun he => absurd (he ▸ hd) (by decide)
    rw [look_eq (drop_eq_cons htext).1, respond, if_neg hspace, if_pos hd,
      bind_of_ok (readNumber_of_stands htext hd hrun hrest)]
    rfl
  | @operator op =>
    have hch := (drop_eq_cons htext).1
    have hop : (Operator.ofChar? op.char).isSome = true := by
      rw [Operator.ofChar?_char]
      rfl
    rw [look_eq hch, respond, if_neg op.char_ne_separator, if_neg op.char_notMem_digits, if_pos hop]
    exact placeOperator_of_operator (c := { c with operators := c.operators + 1 }) hch
  | opening =>
    rw [look_eq (drop_eq_cons htext).1, respond, if_neg (by decide), if_neg (by decide), if_neg (by decide),
      if_pos (by rfl)]
    show (push opening >>= _) c = (push opening >>= _) c
    cases hpush : push opening c with
    | ok a d =>
      have hpos : d.pos = c.pos := ((preserves_push opening).place_of_ok hpush).2
      have hback : ((c.pos + 1 : Nat) : Int) - 1 = c.pos := by omega
      rw [bind_of_ok hpush, bind_of_ok hpush]
      show record watch (((d.pos + 1 : Nat) : Int) - 1) opening .opening { d with pos := d.pos + 1 } = _
      rw [hpos, hback]
      rfl
    | error e d => rw [bind_of_error hpush, bind_of_error hpush]
  | closing =>
    have hch := (drop_eq_cons htext).1
    rw [look_eq hch, respond, if_neg (by decide), if_neg (by decide), if_neg (by decide),
      if_neg (by decide), if_pos (by rfl), closeGroup, bind_get, bind_of_ok (advance_of_closing hch)]
    rfl
  | @invalid ch _ hspace hdigit hc =>
    have hop : ¬ (Operator.ofChar? ch).isSome = true := by
      rw [Operator.ofChar?_of_notMem hc]
      simp
    simp only [List.mem_cons, List.not_mem_nil, or_false, not_or] at hc
    rw [look_eq (drop_eq_cons htext).1, respond, if_neg (by exact hspace), if_neg hdigit, if_neg hop,
      if_neg (by simp [openingChar, hc]), if_neg (by simp [closingChar, hc])]
    rfl

-- Absorbing a token leaves the position at its end.
theorem place_of_absorb {t : Token} (h : absorb watch t c = .ok () d) : d.text = c.text ∧ d.pos = t.stop := by
  obtain ⟨start, lexeme⟩ := t
  cases lexeme with
  | number literal =>
    have hmoves : Preserves emptied (enqueue (String.ofList literal) >>= fun _ =>
        record watch start (String.ofList literal) .number) :=
      (preserves_enqueue _).bind fun _ => preserves_record _ _ _
    exact hmoves.place_of_ok h
  | operator op => exact (preserves_settle _ _).place_of_ok h
  | opening =>
    cases hpush : push opening { c with pos := start } with
    | ok a d' =>
      have hrecord := (bind_of_ok hpush _).symm.trans h
      obtain ⟨htext, -⟩ := (preserves_push opening).place_of_ok hpush
      obtain ⟨htext', hpos⟩ := (preserves_record start opening .opening).place_of_ok hrecord
      exact ⟨htext'.trans htext, hpos⟩
    | error e d' => cases (bind_of_error hpush _).symm.trans h
  | closing => exact (preserves_closeAt _).place_of_ok h
  | invalid ch => cases h

/-- In the text there is a space, which is passed, or a token, which is absorbed. -/
theorem look_cases (watch : Option Observer) (h : c.pos < c.text.length) :
    (c.text[c.pos]? = some ' ' ∧ look watch c = .ok () { c with pos := c.pos + 1 }) ∨
      ∃ t rest, t.start = c.pos ∧ c.text.drop c.pos = t.lexeme.chars ++ rest ∧ t.lexeme.Stands rest ∧
        look watch c = absorb watch t c := by
  obtain ⟨ch, cs, hcs⟩ : ∃ ch cs, c.text.drop c.pos = ch :: cs := by
    apply List.exists_cons_of_length_pos
    rw [List.length_drop]
    omega
  have htoken {lexeme : Lexeme} {rest : List Char} (htext : c.text.drop c.pos = lexeme.chars ++ rest)
      (hstands : lexeme.Stands rest) :
      ∃ t rest, t.start = c.pos ∧ c.text.drop c.pos = t.lexeme.chars ++ rest ∧ t.lexeme.Stands rest ∧
        look watch c = absorb watch t c :=
    ⟨⟨c.pos, lexeme⟩, rest, rfl, htext, hstands, look_of_token rfl htext hstands⟩
  have reading := reading_scan c.pos (ch :: cs)
  generalize scan c.pos (ch :: cs) = ts at reading
  cases reading with
  | space => exact .inl ⟨(drop_eq_cons hcs).1, look_of_space (drop_eq_cons hcs).1⟩
  | number hd hrun hrest => exact .inr (htoken hcs (.number hd hrun hrest))
  | operator op => exact .inr (htoken hcs (@Lexeme.Stands.operator op _))
  | opening => exact .inr (htoken hcs .opening)
  | closing => exact .inr (htoken hcs .closing)
  | invalid hspace hdigit hc => exact .inr (htoken hcs (.invalid hspace hdigit hc))

-- A round that does not fail goes on in the text, and not past its end.
theorem look_advances (hpos : c.pos < c.text.length) (h : look watch c = .ok () d) :
    c.pos < d.pos ∧ d.pos ≤ c.text.length ∧ d.text = c.text := by
  rcases look_cases watch hpos with ⟨-, hspace⟩ | ⟨t, rest, hstart, htext, hstands, htoken⟩
  · cases hspace.symm.trans h
    exact ⟨Nat.lt_succ_self _, hpos, rfl⟩
  · obtain ⟨hdtext, hdpos⟩ := place_of_absorb (htoken.symm.trans h)
    have hlength := congrArg List.length htext
    have hchars : 0 < t.lexeme.chars.length := List.length_pos_of_ne_nil hstands.chars_ne_nil
    rw [List.length_drop, List.length_append] at hlength
    rw [Token.stop, hstart] at hdpos
    exact ⟨by omega, by omega, hdtext⟩

/-! ## 4. All rounds -/

-- A token is absorbed where it stands, wherever the position was before.
theorem absorb_moveTo (t : Token) (pos : Nat) : absorb watch t { c with pos } = absorb watch t c := by
  obtain ⟨start, lexeme⟩ := t
  cases lexeme <;> rfl

theorem absorbText_eq (watch : Option Observer) (c : Converter) :
    absorbText watch c = ((scan c.pos (c.text.drop c.pos)).forM (absorb watch) >>= fun _ =>
      modify fun c => { c with pos := max c.pos c.text.length }) c := rfl

theorem absorbText_of_end (h : c.pos = c.text.length) : absorbText watch c = .ok () c := by
  have hmax : max c.pos c.text.length = c.pos := by omega
  have hdrop : c.text.drop c.pos = [] := List.drop_eq_nil_of_le h.ge
  rw [absorbText_eq, hdrop, scan]
  show EStateM.Result.ok () { c with pos := max c.pos c.text.length } = _
  rw [hmax]

theorem absorbText_of_space (h : c.text[c.pos]? = some ' ') :
    absorbText watch c = absorbText watch { c with pos := c.pos + 1 } := by
  obtain ⟨hlt, hget⟩ := List.getElem?_eq_some_iff.1 h
  have hscan : scan c.pos (c.text.drop c.pos) = scan (c.pos + 1) (c.text.drop (c.pos + 1)) := by
    rw [List.drop_eq_getElem_cons hlt, hget, scan, if_pos (by rfl)]
  rw [absorbText_eq, absorbText_eq, hscan]
  cases scan (c.pos + 1) (c.text.drop (c.pos + 1)) with
  | nil =>
    have hmax : max (c.pos + 1) c.text.length = max c.pos c.text.length := by omega
    show EStateM.Result.ok () { c with pos := max c.pos c.text.length } =
      .ok () { c with pos := max (c.pos + 1) c.text.length }
    rw [hmax]
  | cons t ts =>
    rw [List.forM, bind_assoc]
    exact bind_eq_bind (absorb_moveTo t (c.pos + 1)).symm _

theorem absorbText_of_token {t : Token} {rest : List Char} (hstart : t.start = c.pos)
    (htext : c.text.drop c.pos = t.lexeme.chars ++ rest) (hstands : t.lexeme.Stands rest) :
    absorbText watch c = (absorb watch t >>= fun _ => absorbText watch) c := by
  have hscan : scan c.pos (c.text.drop c.pos) = t :: scan t.stop rest := by
    have hreading : Reading c.pos ([] ++ (t.lexeme.chars ++ rest)) (t :: scan t.stop rest) :=
      .cons (by simp) hstart hstands (reading_scan _ _)
    rw [htext]
    exact hreading.eq_scan.symm
  have hrest : c.text.drop t.stop = rest := by
    rw [Token.stop, hstart, ← List.drop_drop, htext, List.drop_left]
  rw [absorbText_eq, hscan, List.forM, bind_assoc]
  cases habsorb : absorb watch t c with
  | ok a d =>
    obtain ⟨hdtext, hdpos⟩ := place_of_absorb habsorb
    rw [bind_of_ok habsorb, bind_of_ok habsorb, absorbText_eq, hdtext, hdpos, hrest]
  | error e d => rw [bind_of_error habsorb, bind_of_error habsorb]

/-- While the position is in the text, the text is absorbed by a round and what is left after it. -/
theorem absorbText_of_inText (watch : Option Observer) (h : c.pos < c.text.length) :
    absorbText watch c = (look watch >>= fun _ => absorbText watch) c := by
  rcases look_cases watch h with ⟨hspace, hlook⟩ | ⟨t, rest, hstart, htext, hstands, hlook⟩
  · rw [bind_of_ok hlook, absorbText_of_space hspace]
  · rw [absorbText_of_token hstart htext hstands]
    exact bind_eq_bind hlook.symm _

theorem exists_rounds (watch : Option Observer) (hpos : c.pos ≤ c.text.length) :
    ∃ n ≤ c.text.length - c.pos, Rounds inText (look watch) n c (absorbText watch c) := by
  generalize hleft : c.text.length - c.pos = left
  -- on the characters that are left, of which each round takes one at least
  induction left using Nat.strong_induction_on generalizing c with
  | _ left ih =>
  rcases Nat.lt_or_eq_of_le hpos with hlt | hend
  · have htest : inText c = true := decide_eq_true hlt
    rw [absorbText_of_inText watch hlt]
    cases hlook : look watch c with
    | ok a d =>
      obtain ⟨hon, hin, htext⟩ := look_advances hlt hlook
      have hlength : d.text.length = c.text.length := by rw [htext]
      obtain ⟨n, hn, hrounds⟩ := ih (d.text.length - d.pos) (by omega) (by omega) rfl
      rw [bind_of_ok hlook]
      exact ⟨n + 1, by omega, .next htest hlook hrounds⟩
    | error e d =>
      rw [bind_of_error hlook]
      exact ⟨1, by omega, .failed htest hlook⟩
  · rw [absorbText_of_end hend]
    exact ⟨0, Nat.zero_le _, .done (decide_eq_false (by omega))⟩

/-- From every state with a position in the text or at its end, whatever it holds and whatever it has counted: a
number read by hand is the longest beginning of the rest of the text without a space and a closing parenthesis; it
is passed character by character, up to the end of the text at most, and counted, also if it is empty, and nothing
else is changed.  A round of the loop over the text that does not fail goes on in the text, not past its end.  So
the loop ends after no more rounds than characters are left, with the state in which the text is absorbed. -/
theorem absorbText_in_rounds (hpos : c.pos ≤ c.text.length) (watch : Option Observer) :
    (∃ run, (∀ front, front <+: run ↔ front <+: c.text.drop c.pos ∧ ∀ ch ∈ front, ch ≠ ' ' ∧ ch ≠ ')') ∧
      c.pos + run.length ≤ c.text.length ∧
      readNumber c = .ok (String.ofList run) { c with
        pos := c.pos + run.length
        numbers := c.numbers + 1 } ∧
      Rounds inNumber (advance none) run.length { c with numbers := c.numbers + 1 } (.ok () { c with
        pos := c.pos + run.length
        numbers := c.numbers + 1 })) ∧
    (∀ d, c.pos < c.text.length → look watch c = .ok () d →
      c.pos < d.pos ∧ d.pos ≤ c.text.length ∧ d.text = c.text) ∧
    ∃ n ≤ c.text.length - c.pos, ∀ m r, Rounds inText (look watch) m c r ↔ m = n ∧ r = absorbText watch c := by
  obtain ⟨n, hn, hrounds⟩ := exists_rounds watch hpos
  have hlength := length_numberRun_le (c.text.drop c.pos)
  rw [List.length_drop] at hlength
  refine ⟨⟨numberRun (c.text.drop c.pos), fun front => prefix_numberRun_iff, by omega, rfl,
    rounds_number { c with numbers := c.numbers + 1 }⟩, fun d hlt hlook => look_advances hlt hlook, n, hn, ?_⟩
  intro m r
  constructor
  · exact hrounds.unique
  · rintro ⟨rfl, rfl⟩
    exact hrounds

/-- A converter in the middle of a text, with a strange string on the stack and counts that fit nothing. -/
def adrift : Converter where
  text := "x9+(é) 4*".toList
  pos := 1
  output := ⟨7, #["?"], 0, Nat.zero_le _⟩
  stack := ⟨2, ["?", "("]⟩
  operators := 5
  numbers := 0
  started := true
  log := #[]

def landed : Converter where
  text := "x9+(é) 4*".toList
  pos := 9
  output := ⟨7, #["?", "9+(é", "?", "4*"], 0, Nat.zero_le _⟩
  stack := ⟨2, []⟩
  operators := 5
  numbers := 2
  started := true
  log := #[⟨1, "9+(é", .number, ["?", "9+(é"], ["?", "("]⟩, ⟨5, ")", .closing, ["?", "9+(é", "?"], []⟩,
    ⟨7, "4*", .number, ["?", "9+(é", "?", "4*"], []⟩]

/-- A number, a closing parenthesis, a space and a number are passed in four rounds, of eight at most. -/
theorem absorbText_in_rounds_adrift :
    adrift.pos ≤ adrift.text.length ∧
      readNumber adrift = .ok "9+(é" { adrift with pos := 5, numbers := 1 } ∧
      Rounds inText (look none) 4 adrift (.ok () landed) ∧ 4 ≤ adrift.text.length - adrift.pos ∧
      absorbText none adrift = .ok () landed := by
  have hpos : adrift.pos ≤ adrift.text.length := by decide
  have hrounds : Rounds inText (look none) 4 adrift (.ok () landed) :=
    .next rfl rfl (.next rfl rfl (.next rfl rfl (.next rfl rfl (.done rfl))))
  obtain ⟨-, -, n, hn, hiff⟩ := absorbText_in_rounds hpos none
  obtain ⟨rfl, hlanded⟩ := (hiff _ _).1 hrounds
  exact ⟨hpos, rfl, hrounds, hn, hlanded.symm⟩

end Converter

end ReversePolish
