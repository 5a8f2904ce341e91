import TreeShell.Options.Reader

/-! The words of a command, read as operands and as switches. -/
namespace TreeShell.Options

theorem ne_separatorWord {word : Text} (h : word.head? ≠ some (chr '-')) : word ≠ separatorWord := by
  rintro rfl
  exact h rfl

/-- Words that begin with no dash are operands. -/
theorem classifyAll_operands {spec : Spec} {words : List Text}
    (h : ∀ word ∈ words, word.head? ≠ some (chr '-')) :
    classifyAll spec words = .ok (words.map .operand) := by
  induction words with
  | nil => rfl
  | cons word words ih =>
      have hWord := h word (List.mem_cons_self ..)
      have hSeparator := ne_separatorWord hWord
      have hRest := ih fun other hOther => h other (List.mem_cons_of_mem _ hOther)
      have hItem : classify spec word = .ok (.operand word) := by simp [classify, hWord]
      rw [classifyAll, if_neg hSeparator, hItem, hRest]
      rfl

theorem readItems_operands (spec : Spec) (p : Progress) (run : List Item) (words : List Text) :
    readItems spec p run (words.map .operand) = .ok (p.offer (run ++ words.map .operand)) := by
  induction words generalizing run with
  | nil => simp [readItems]
  | cons word words ih => simp [readItems, ih]

/-- Words that begin with no dash are handed to the operands, each of which takes as many as
it is served. -/
theorem readWords_operands (spec : Spec) (operands : List Operand) (made : List (Text × Value))
    {words : List Text} (h : ∀ word ∈ words, word.head? ≠ some (chr '-')) {counts : List Nat}
    (hServed : serveMost (operands.map Operand.arity) (words.map fun _ => false) = counts) :
    readWords spec operands made words =
      .ok ⟨made, operands.drop counts.length, (hand operands counts words).1,
        (hand operands counts words).2⟩ := by
  have hRun : (words.map Item.operand).map Item.isSeparator = words.map fun _ => false := by
    rw [List.map_map]
    rfl
  have hWords : (words.map Item.operand).map Item.word = words := by
    rw [List.map_map]
    exact List.map_id words
  rw [readWords, classifyAll_operands h]
  change readItems spec ⟨made, operands, [], []⟩ [] (words.map .operand) = _
  rw [readItems_operands, List.nil_append, Progress.offer, hRun, hServed, hWords]
  rfl

/-- A switch without a value makes its setting and is passed over. -/
theorem readWords_flag {spec : Spec} {s : Switch} {word : Text} (hFind : spec.find? word = some s)
    (hFlag : s.effect = .flag) (hDash : word.head? = some (chr '-')) (hSeparator : word ≠ separatorWord)
    (operands : List Operand) (made : List (Text × Value)) (words : List Text) :
    readWords spec operands made (word :: words) =
      readWords spec operands (made ++ [(s.key, .on)]) words := by
  have hItem : classify spec word = .ok (.switch s word none) := by simp [classify, hDash, hFind]
  rw [readWords, classifyAll, if_neg hSeparator, hItem, readWords]
  cases classifyAll spec words with
  | error stop => rfl
  | ok items =>
      simp [readItems, unfold, hFlag, Effect.takesValue, settings, Switch.value, bind, Except.bind,
        pure, Except.pure]

theorem erase_separatorWord {word : Text} (h : word.head? ≠ some (chr '-')) :
    [word].erase separatorWord = [word] := by
  simp [ne_separatorWord h]

/-- One word for each operand. -/
theorem hand_each {operands : List Operand} {words : List Text}
    (hLength : operands.length = words.length) (h : ∀ word ∈ words, word.head? ≠ some (chr '-')) :
    hand operands (words.map fun _ => 1) words =
      (operands.zipWith (fun o word => (o.name, [word])) words, []) := by
  induction operands generalizing words with
  | nil =>
      obtain rfl := List.length_eq_zero_iff.mp hLength.symm
      rfl
  | cons o operands ih =>
      obtain ⟨word, words, rfl⟩ := List.exists_cons_of_length_eq_add_one hLength.symm
      obtain ⟨hWord, hWords⟩ := List.forall_mem_cons.mp h
      have hRest := ih (Nat.succ.inj hLength) hWords
      have hErase := erase_separatorWord hWord
      simp only [List.map_cons, hand, List.drop_succ_cons, List.drop_zero, hRest,
        List.take_succ_cons, List.take_zero, hErase, List.zipWith_cons_cons]

/-- An operand that waits while the switches are read. -/
def Operand.held (o : Operand) : Operand := { o with arity := .waiting }

/-- Operands that wait are served without a word. -/
theorem serve_held (count : Nat) {run : List Bool} (h : run.takeWhile id = []) :
    serve (List.replicate count .waiting) run = some (List.replicate count 0) := by
  induction count with
  | zero => rfl
  | succ count ih =>
      have hNone : Arity.waiting.choices run = [0] := by
        simp only [Arity.choices, h]
        rfl
      rw [List.replicate_succ, serve, hNone, List.findSome?_cons, List.drop_zero, ih]
      rfl

theorem serveMost_held (count : Nat) {run : List Bool} (h : run.takeWhile id = []) :
    serveMost (List.replicate count .waiting) run = List.replicate count 0 := by
  have hDown : downTo 0 count = count :: (List.range count).reverse := by
    simp [downTo, List.range_succ]
  rw [serveMost, List.length_replicate, hDown, List.findSome?_cons, List.take_replicate,
    Nat.min_self, serve_held count h]
  rfl

/-- Operands that are held back take no words. -/
theorem hand_held (operands : List Operand) (words : List Text) :
    hand (operands.map Operand.held) (List.replicate operands.length 0) words =
      (operands.map fun o => (o.name, []), words) := by
  induction operands with
  | nil => rfl
  | cons o operands ih =>
      simp only [List.map_cons, List.length_cons, List.replicate_succ, hand, List.drop_zero, ih]
      rfl

/-- Words that begin with no dash are left over by operands that wait. -/
theorem readWords_held (spec : Spec) (operands : List Operand) (made : List (Text × Value))
    {words : List Text} (h : ∀ word ∈ words, word.head? ≠ some (chr '-')) :
    readWords spec (operands.map Operand.held) made words =
      .ok ⟨made, [], operands.map fun o => (o.name, []), words⟩ := by
  have hArities : (operands.map Operand.held).map Operand.arity =
      List.replicate operands.length .waiting := by
    rw [List.map_map]
    exact List.map_const' ..
  have hRun : (words.map fun _ => false).takeWhile id = [] := by cases words <;> rfl
  have hServed : serveMost ((operands.map Operand.held).map Operand.arity)
      (words.map fun _ => false) = List.replicate operands.length 0 := by
    rw [hArities, serveMost_held _ hRun]
  rw [readWords_operands spec _ made h hServed, hand_held]
  simp

/-- A switch behind an operand takes the word behind it. -/
theorem readWords_valued {spec : Spec} {s : Switch} {word value : Text} {made : Value}
    (hFind : spec.find? word = some s) (hTakes : s.effect.takesValue = true)
    (hValue : s.value (some value) = .ok made) (hDash : word.head? = some (chr '-'))
    (hSeparator : word ≠ separatorWord) (hOperand : value.head? ≠ some (chr '-'))
    (operands : List Operand) {first : Text} (hFirst : first.head? ≠ some (chr '-')) :
    readWords spec (operands.map Operand.held) [] [first, word, value] =
      .ok ⟨[(s.key, made)], [], operands.map fun o => (o.name, []), [first]⟩ := by
  have hSwitch : classify spec word = .ok (.switch s word none) := by simp [classify, hDash, hFind]
  have hItem {t : Text} (ht : t.head? ≠ some (chr '-')) : classify spec t = .ok (.operand t) := by
    simp [classify, ht]
  have hItems : classifyAll spec [first, word, value] =
      .ok [.operand first, .switch s word none, .operand value] := by
    simp only [classifyAll, ne_separatorWord hFirst, hSeparator, ne_separatorWord hOperand,
      hItem hFirst, hSwitch, hItem hOperand, if_false]
    rfl
  have hMade : settings [(s, some value)] = .ok [(s.key, made)] := by
    simp only [settings, List.mapM_cons, hValue]
    rfl
  have hWords : ∀ t ∈ [first], t.head? ≠ some (chr '-') := by simpa using hFirst
  have hHeld := readWords_held spec operands [] hWords
  rw [readWords, classifyAll_operands hWords] at hHeld
  have hOffer : Progress.offer ⟨[], operands.map Operand.held, [], []⟩ [.operand first] =
      ⟨[], [], operands.map fun o => (o.name, []), [first]⟩ := Except.ok.inj hHeld
  have hNothing : Progress.offer ⟨[(s.key, made)], [], operands.map fun o => (o.name, []), [first]⟩ []
      = ⟨[(s.key, made)], [], operands.map fun o => (o.name, []), [first]⟩ := by
    simp [Progress.offer, hand, serveMost, downTo, serve]
  rw [readWords, hItems]
  simp [readItems, unfold, hTakes, hMade, hOffer, hNothing, bind, Except.bind]

/-- The words are read twice: the switches first, and then the operands that have waited. -/
theorem Spec.read_eq {spec : Spec} {given words : List Text} {made : List (Text × Value)}
    {unfilled : List (Text × List Text)}
    (hFirst : readWords spec (spec.operands.map Operand.held) [] given =
      .ok ⟨made, [], unfilled, words⟩)
    (hWords : ∀ word ∈ words, word.head? ≠ some (chr '-')) {counts : List Nat}
    (hServed : serveMost (spec.operands.map Operand.arity) (words.map fun _ => false) = counts)
    (hAll : spec.operands.length ≤ counts.length) {filled : List (Text × List Text)}
    (hHand : hand spec.operands counts words = (filled, [])) :
    spec.read given = .ok (.work ⟨made, filled⟩) := by
  have hTwice : readTwice spec given = .ok ⟨made, filled⟩ := by
    rw [readTwice]
    change (readWords spec (spec.operands.map Operand.held) [] given >>= _) = _
    rw [hFirst]
    change (readWords spec spec.operands made words >>= _) = _
    rw [readWords_operands spec spec.operands made hWords hServed, hHand,
      List.drop_eq_nil_of_le hAll]
    rfl
  rw [Spec.read, hTwice]

end TreeShell.Options
