import MathShorthand.Proofs.Tree.Writable

/-!
# Names in the output

What is written of a tree is a frame, which its shape alone settles, with the names of the tree set
into it in order (`Expr.latex_eq_frame_of_shape`). A frame has a text in front of every name and one
behind the last, and no two names come to stand next to each other. Whether a tree can be written at
all is settled by its shape too.
-/

namespace MathShorthand

/-! ### Shapes -/

/-- A tree without the texts of its names. -/
inductive Shape where
  | name
  | prefixed (op : Kind) (operand : Shape)
  | postfixed (op : Kind) (operand : Shape)
  | binary (op : Kind) (left right : Shape)
  | bounded (op : Kind) (bounds : List Shape) (body : Shape)

namespace Shape

mutual

/-- The number of names in a tree of the shape. -/
def leaves : Shape → Nat
  | name => 1
  | prefixed _ operand | postfixed _ operand => operand.leaves
  | binary _ left right => left.leaves + right.leaves
  | bounded _ bounds body => leavesAll bounds + body.leaves

def leavesAll : List Shape → Nat
  | [] => 0
  | s :: ss => s.leaves + leavesAll ss

end

end Shape

namespace Expr

mutual

def shape : Expr → Shape
  | name _ => .name
  | prefixed op operand => .prefixed op operand.shape
  | postfixed op operand => .postfixed op operand.shape
  | binary op left right => .binary op left.shape right.shape
  | bounded op bounds body => .bounded op (shapes bounds) body.shape

def shapes : List Expr → List Shape
  | [] => []
  | e :: es => e.shape :: shapes es

end

mutual

/-- The texts of the names of a tree from left to right. -/
def names : Expr → List String
  | name text => [text]
  | prefixed _ operand | postfixed _ operand => operand.names
  | binary _ left right => left.names ++ right.names
  | bounded _ bounds body => namesAll bounds ++ body.names

def namesAll : List Expr → List String
  | [] => []
  | e :: es => e.names ++ namesAll es

end

mutual

theorem length_names (e : Expr) : e.names.length = e.shape.leaves := by
  match e with
  | name text => rfl
  | prefixed op operand | postfixed op operand => exact operand.length_names
  | binary op left right =>
    rw [names, List.length_append, left.length_names, right.length_names]
    rfl
  | bounded op bounds body =>
    rw [names, List.length_append, length_namesAll bounds, body.length_names]
    rfl

theorem length_namesAll (es : List Expr) :
    (namesAll es).length = Shape.leavesAll (shapes es) := by
  match es with
  | [] => rfl
  | e :: es =>
    rw [namesAll, List.length_append, e.length_names, length_namesAll es]
    rfl

end

end Expr

theorem exists_split {texts : List String} {j k : Nat} (count : texts.length = j + k) :
    ∃ a b, texts = a ++ b ∧ a.length = j ∧ b.length = k :=
  ⟨texts.take j, texts.drop j, (List.take_append_drop j texts).symm, by simp [count],
    by simp [count]⟩

namespace Shape

mutual

/-- Any texts are the names of a tree of the shape, if there are as many of them as it has names. -/
theorem exists_of_names (s : Shape) (texts : List String) (count : texts.length = s.leaves) :
    ∃ e : Expr, e.shape = s ∧ e.names = texts := by
  match s with
  | name =>
    obtain ⟨text, rfl⟩ := List.length_eq_one_iff.mp count
    exact ⟨.name text, rfl, rfl⟩
  | prefixed op operand =>
    obtain ⟨e, rfl, rfl⟩ := exists_of_names operand texts count
    exact ⟨.prefixed op e, rfl, rfl⟩
  | postfixed op operand =>
    obtain ⟨e, rfl, rfl⟩ := exists_of_names operand texts count
    exact ⟨.postfixed op e, rfl, rfl⟩
  | binary op left right =>
    obtain ⟨a, b, rfl, count_left, count_right⟩ := exists_split count
    obtain ⟨l, rfl, rfl⟩ := exists_of_names left a count_left
    obtain ⟨r, rfl, rfl⟩ := exists_of_names right b count_right
    exact ⟨.binary op l r, rfl, rfl⟩
  | bounded op bounds body =>
    obtain ⟨a, b, rfl, count_bounds, count_body⟩ := exists_split count
    obtain ⟨es, rfl, rfl⟩ := exists_of_namesAll bounds a count_bounds
    obtain ⟨e, rfl, rfl⟩ := exists_of_names body b count_body
    exact ⟨.bounded op es e, rfl, rfl⟩

theorem exists_of_namesAll (ss : List Shape) (texts : List String)
    (count : texts.length = leavesAll ss) :
    ∃ es, Expr.shapes es = ss ∧ Expr.namesAll es = texts := by
  match ss with
  | [] =>
    obtain rfl : texts = [] := List.length_eq_zero_iff.mp count
    exact ⟨[], rfl, rfl⟩
  | s :: ss =>
    obtain ⟨a, b, rfl, count_first, count_others⟩ := exists_split count
    obtain ⟨e, rfl, rfl⟩ := exists_of_names s a count_first
    obtain ⟨es, rfl, rfl⟩ := exists_of_namesAll ss b count_others
    exact ⟨e :: es, rfl, rfl⟩

end

end Shape

namespace Expr

section

variable {e : Expr} {es : List Expr} {op : Kind} {s t : Shape} {ss : List Shape}

theorem eq_name_of_shape (same : e.shape = .name) : ∃ text, e = name text := by
  cases e <;> cases same
  exact ⟨_, rfl⟩

theorem eq_prefixed_of_shape (same : e.shape = .prefixed op s) :
    ∃ operand, e = prefixed op operand ∧ operand.shape = s := by
  cases e <;> cases same
  exact ⟨_, rfl, rfl⟩

theorem eq_postfixed_of_shape (same : e.shape = .postfixed op s) :
    ∃ operand, e = postfixed op operand ∧ operand.shape = s := by
  cases e <;> cases same
  exact ⟨_, rfl, rfl⟩

theorem eq_binary_of_shape (same : e.shape = .binary op s t) :
    ∃ left right, e = binary op left right ∧ left.shape = s ∧ right.shape = t := by
  cases e <;> cases same
  exact ⟨_, _, rfl, rfl, rfl⟩

theorem eq_bounded_of_shape (same : e.shape = .bounded op ss s) :
    ∃ bounds body, e = bounded op bounds body ∧ shapes bounds = ss ∧ body.shape = s := by
  cases e <;> cases same
  exact ⟨_, _, rfl, rfl, rfl⟩

theorem eq_nil_of_shapes (same : shapes es = []) : es = [] := by
  cases es <;> cases same
  rfl

theorem eq_cons_of_shapes (same : shapes es = s :: ss) :
    ∃ e es', es = e :: es' ∧ e.shape = s ∧ shapes es' = ss := by
  cases es <;> cases same
  exact ⟨_, _, rfl, rfl, rfl⟩

end

end Expr

/-! ### Frames -/

/-- The gaps with a name behind each of them. -/
def weave : List String → List String → String
  | gap :: gaps, name :: names => gap ++ name ++ weave gaps names
  | _, _ => ""

theorem weave_append {gaps names : List String} (same : gaps.length = names.length)
    (gaps' names' : List String) :
    weave (gaps ++ gaps') (names ++ names') = weave gaps names ++ weave gaps' names' := by
  induction gaps generalizing names with
  | nil =>
    obtain rfl : names = [] := List.length_eq_zero_iff.mp same.symm
    exact String.empty_append.symm
  | cons gap gaps ih =>
    obtain ⟨name, names, rfl⟩ := List.exists_cons_of_length_eq_add_one same.symm
    simp only [List.cons_append, weave, ih (Nat.succ.inj same), String.append_assoc]

/-- A row of texts with `count` names set between them. -/
structure Frame (count : Nat) where
  /-- The texts in front of the names. -/
  gaps : List String
  last : String
  length : gaps.length = count
  /-- Two names do not stand next to each other. -/
  parted : ∀ gap ∈ gaps.tail, gap ≠ ""

namespace Frame

variable {j k : Nat}

/-- The texts of the frame with the names set into them. -/
def fill (f : Frame k) (names : List String) : String := weave f.gaps names ++ f.last

/-- One name with nothing around it. -/
def hole : Frame 1 := ⟨[""], "", rfl, nofun⟩

theorem exists_wrap (before behind : String) (f : Frame k) :
    ∃ f' : Frame k, ∀ names, names.length = k →
      f'.fill names = before ++ f.fill names ++ behind := by
  obtain ⟨gaps, last, length, parted⟩ := f
  cases gaps with
  | nil =>
    refine ⟨⟨[], before ++ last ++ behind, length, parted⟩, fun names _ => ?_⟩
    simp only [fill, weave, String.empty_append]
  | cons gap gaps =>
    refine ⟨⟨(before ++ gap) :: gaps, last ++ behind, length, parted⟩, fun names count => ?_⟩
    obtain ⟨name, names, rfl⟩ := List.exists_cons_of_length_eq_add_one (count.trans length.symm)
    simp only [fill, weave, String.append_assoc]

/-- Two frames with some text between them make one. -/
theorem exists_join {middle : String} (some_text : middle ≠ "") (f : Frame j) (g : Frame k) :
    ∃ h : Frame (j + k), ∀ names names', names.length = j → names'.length = k →
      h.fill (names ++ names') = f.fill names ++ middle ++ g.fill names' := by
  obtain ⟨gaps, last, length, parted⟩ := f
  obtain ⟨gaps', last', length', parted'⟩ := g
  cases gaps' with
  | nil =>
    obtain rfl : k = 0 := length'.symm
    refine ⟨⟨gaps, last ++ middle ++ last', length, parted⟩, fun names names' _ none => ?_⟩
    obtain rfl : names' = [] := List.length_eq_zero_iff.mp none
    simp only [fill, List.append_nil, weave, String.empty_append, String.append_assoc]
  | cons gap gaps' =>
    -- the last text of the one, the text between, and the first text of the other are one gap
    refine ⟨⟨gaps ++ (last ++ middle ++ gap) :: gaps', last', ?_, fun between mem => ?_⟩,
      fun names names' count count' => ?_⟩
    · rw [List.length_append, length, ← length']
      rfl
    · have merged : last ++ middle ++ gap ≠ "" := by simp [some_text]
      cases gaps with
      | nil => exact parted' between mem
      | cons first gaps =>
        rcases List.mem_append.mp mem with before | behind
        · exact parted between before
        · rcases List.mem_cons.mp behind with rfl | behind
          · exact merged
          · exact parted' between behind
    · have same : gaps.length = names.length := length.trans count.symm
      obtain ⟨name, names', rfl⟩ :=
        List.exists_cons_of_length_eq_add_one (count'.trans length'.symm)
      simp only [fill, weave_append same, weave, String.append_assoc]

end Frame

/-! ### Writing into frames -/

/-- The text of one operand is set between fixed texts, or none is written of any. -/
def Wraps (write : String → Except LatexError String) : Prop :=
  (∃ cause, ∀ text, write text = .error cause) ∨
    ∃ before behind, ∀ text, write text = .ok (before ++ text ++ behind)

/-- The texts of two operands are set between fixed texts, with some text between them, or none is
written of any. -/
def Joins (write : String → String → Except LatexError String) : Prop :=
  (∃ cause, ∀ left right, write left right = .error cause) ∨
    ∃ before middle behind, middle ≠ "" ∧
      ∀ left right, write left right = .ok (before ++ (left ++ middle ++ right) ++ behind)

/-- The frame of an operator, from those of its operands. -/
theorem Wraps.exists_frame {write : String → Except LatexError String} (wraps : Wraps write)
    {k : Nat} (frame : Except LatexError (Frame k)) :
    ∃ whole : Except LatexError (Frame k), ∀ names, names.length = k →
      frame.map (·.fill names) >>= write = whole.map (·.fill names) := by
  cases frame with
  | error cause => exact ⟨.error cause, fun _ _ => rfl⟩
  | ok f =>
    rcases wraps with ⟨cause, fails⟩ | ⟨before, behind, writes⟩
    · exact ⟨.error cause, fun names _ => fails _⟩
    · obtain ⟨whole, fill⟩ := f.exists_wrap before behind
      exact ⟨.ok whole, fun names count => (writes _).trans (congrArg _ (fill names count).symm)⟩

theorem Joins.exists_frame {write : String → String → Except LatexError String}
    (joins : Joins write) {j k : Nat} (left : Except LatexError (Frame j))
    (right : Except LatexError (Frame k)) :
    ∃ whole : Except LatexError (Frame (j + k)), ∀ names names', names.length = j →
      names'.length = k →
      (left.map (·.fill names) >>= fun l => right.map (·.fill names') >>= write l) =
        whole.map (·.fill (names ++ names')) := by
  cases left with
  | error cause => exact ⟨.error cause, fun _ _ _ _ => rfl⟩
  | ok f =>
    cases right with
    | error cause => exact ⟨.error cause, fun _ _ _ _ => rfl⟩
    | ok g =>
      rcases joins with ⟨cause, fails⟩ | ⟨before, middle, behind, some_text, writes⟩
      · exact ⟨.error cause, fun names names' _ _ => fails _ _⟩
      · obtain ⟨both, fill⟩ := f.exists_join some_text g
        obtain ⟨whole, fill_whole⟩ := both.exists_wrap before behind
        refine ⟨.ok whole, fun names names' count count' => (writes _ _).trans ?_⟩
        have lengths : (names ++ names').length = j + k := by
          rw [List.length_append, count, count']
        rw [← fill names names' count count', ← fill_whole _ lengths]
        rfl

theorem wraps_text (before : String) : Wraps fun text => .ok (before ++ text) :=
  .inr ⟨before, "", fun text => by rw [String.append_empty]⟩

theorem wraps_braced (before : String) : Wraps fun text => .ok (before ++ braced text) :=
  .inr ⟨before ++ "\x7b", "\x7d", fun text => by simp only [braced, String.append_assoc]⟩

theorem wraps_error (cause : LatexError) : Wraps fun _ => .error cause := .inl ⟨cause, fun _ => rfl⟩

theorem joins_script (sign : String) : Joins fun left right => .ok (left ++ sign ++ braced right) :=
  .inr ⟨"", sign ++ "\x7b", "\x7d", by simp, fun left right => by
    simp only [braced, String.empty_append, String.append_assoc]⟩

theorem joins_braced (before between : String) :
    Joins fun left right => .ok (before ++ braced left ++ between ++ braced right) :=
  .inr ⟨before ++ "\x7b", "\x7d" ++ between ++ "\x7b", "\x7d", by simp, fun left right => by
    simp only [braced, String.append_assoc]⟩

theorem joins_text {middle : String} (some_text : middle ≠ "") :
    Joins fun left right => .ok (left ++ middle ++ right) :=
  .inr ⟨"", middle, "", some_text, fun left right => by
    rw [String.empty_append, String.append_empty]⟩

namespace Kind

theorem wraps_latexBefore (op : Kind) : Wraps op.latexBefore := by
  unfold latexBefore
  split
  · exact wraps_text "\\"
  · exact wraps_braced "_"
  · exact wraps_braced "^"
  · exact wraps_text "+"
  · exact wraps_text "-"
  · exact wraps_error _

theorem wraps_latexAfter (op : Kind) : Wraps op.latexAfter := by
  unfold latexAfter
  split
  · exact wraps_braced "\\hat"
  · exact wraps_braced "\\vec"
  · exact wraps_error _

theorem joins_latexBetween (op : Kind) : Joins op.latexBetween := by
  unfold latexBetween
  split
  · exact joins_script "_"
  · exact joins_script "^"
  · simpa only [String.append_empty] using joins_braced "\\frac" ""
  · split
    · next symbol _ =>
      have some_text : " " ++ symbol ++ " " ≠ "" := by simp
      simpa only [String.append_assoc] using joins_text some_text
    · exact .inl ⟨_, fun _ _ => rfl⟩

end Kind

namespace Expr

/-! ### Bounds -/

/-- A bound with the symbol it belongs to. -/
def latexBound (symbol : String) : Expr → Except LatexError String
  | binary .upTo lower upper => do
    let lower ← lower.latex
    let upper ← upper.latex
    .ok (symbol ++ "_" ++ braced lower ++ "^" ++ braced upper)
  | bound => do
    let upper ← bound.latex
    .ok (symbol ++ "^" ++ braced upper)

/-- The bounds with spaces between them. -/
def latexRow (symbol : String) (bounds : List Expr) : Except LatexError String :=
  (latexBounds symbol bounds).map (" ".intercalate ·)

theorem latexBounds_cons_eq (symbol : String) (bound : Expr) (bounds : List Expr) :
    latexBounds symbol (bound :: bounds) = (do
      let first ← bound.latexBound symbol
      let others ← latexBounds symbol bounds
      .ok (first :: others)) := by
  by_cases range : ∃ lower upper, bound = binary .upTo lower upper
  · obtain ⟨lower, upper, rfl⟩ := range
    rw [latexBounds, latexBound]
    cases lower.latex with
    | error cause => rfl
    | ok below => cases upper.latex <;> rfl
  · have no_range (lower upper) (same : bound = binary .upTo lower upper) : False :=
      range ⟨lower, upper, same⟩
    rw [latexBounds_cons symbol bounds no_range, latexBound]
    · cases bound.latex <;> rfl
    · exact no_range

theorem latexRow_singleton (symbol : String) (bound : Expr) :
    latexRow symbol [bound] = bound.latexBound symbol := by
  rw [latexRow, latexBounds_cons_eq]
  cases bound.latexBound symbol with
  | error cause => rfl
  | ok text => exact congrArg Except.ok String.intercalate_singleton

theorem latexRow_cons_cons (symbol : String) (a b : Expr) (bounds : List Expr) :
    latexRow symbol (a :: b :: bounds) = (do
      let first ← a.latexBound symbol
      let others ← latexRow symbol (b :: bounds)
      .ok (first ++ " " ++ others)) := by
  rw [latexRow, latexRow, latexBounds_cons_eq, latexBounds_cons_eq]
  cases a.latexBound symbol with
  | error cause => rfl
  | ok first =>
    cases b.latexBound symbol with
    | error cause => rfl
    | ok second =>
      cases latexBounds symbol bounds with
      | error cause => rfl
      | ok others => exact congrArg Except.ok String.intercalate_cons_cons

theorem latex_bounded_cons {op : Kind} {symbol : String} (known : op.boundedSymbol? = some symbol)
    (bound : Expr) (bounds : List Expr) (body : Expr) :
    (bounded op (bound :: bounds) body).latex = (do
      let row ← latexRow symbol (bound :: bounds)
      let last ← body.latex
      .ok (row ++ " " ++ last)) := by
  simp only [latex, known, latexRow, latexBounds_cons_eq]
  cases bound.latexBound symbol with
  | error cause => rfl
  | ok first => cases latexBounds symbol bounds <;> rfl

end Expr

/-! ### The frame of a shape -/

namespace Shape

open MathShorthand.Expr (latexBound latexRow)

/-- All trees of the shape are written into one frame, or fail alike. -/
def Framed (s : Shape) (write : Expr → Except LatexError String) : Prop :=
  ∃ frame : Except LatexError (Frame s.leaves),
    ∀ e : Expr, e.shape = s → write e = frame.map (·.fill e.names)

def FramedAll (ss : List Shape) (write : List Expr → Except LatexError String) : Prop :=
  ∃ frame : Except LatexError (Frame (leavesAll ss)),
    ∀ es, Expr.shapes es = ss → write es = frame.map (·.fill (Expr.namesAll es))

variable {s t : Shape} {ss : List Shape} {op : Kind}

theorem framed_name : name.Framed Expr.latex := by
  refine ⟨.ok .hole, fun e same => ?_⟩
  obtain ⟨text, rfl⟩ := Expr.eq_name_of_shape same
  simp [Expr.latex, Except.map, Frame.fill, Frame.hole, weave, Expr.names]

/-- Whatever is put around the text of an operand is put around its frame. -/
theorem Framed.wrapped (framed : s.Framed Expr.latex) {wrap : String → Except LatexError String}
    (wraps : Wraps wrap) (count : t.leaves = s.leaves) {write : Expr → Except LatexError String}
    (writes : ∀ e : Expr, e.shape = t → ∃ operand : Expr, operand.shape = s ∧
      e.names = operand.names ∧ write e = operand.latex >>= wrap) : t.Framed write := by
  unfold Framed
  rw [count]
  obtain ⟨frame, writes_operand⟩ := framed
  obtain ⟨whole, fill⟩ := wraps.exists_frame frame
  refine ⟨whole, fun e same => ?_⟩
  obtain ⟨operand, rfl, names, written⟩ := writes e same
  rw [written, writes_operand operand rfl, names]
  exact fill operand.names operand.length_names

theorem Framed.prefixed (framed : s.Framed Expr.latex) : (prefixed op s).Framed Expr.latex := by
  refine framed.wrapped (t := .prefixed op s) op.wraps_latexBefore rfl fun e same => ?_
  obtain ⟨operand, rfl, shape⟩ := Expr.eq_prefixed_of_shape same
  exact ⟨operand, shape, rfl, by rw [Expr.latex]⟩

theorem Framed.postfixed (framed : s.Framed Expr.latex) : (postfixed op s).Framed Expr.latex := by
  refine framed.wrapped (t := .postfixed op s) op.wraps_latexAfter rfl fun e same => ?_
  obtain ⟨operand, rfl, shape⟩ := Expr.eq_postfixed_of_shape same
  exact ⟨operand, shape, rfl, by rw [Expr.latex]⟩

/-- Whatever joins the texts of two operands joins their frames. -/
theorem Framed.joined (framed : s.Framed Expr.latex) (framed' : t.Framed Expr.latex)
    {join : String → String → Except LatexError String} (joins : Joins join)
    {write : Expr → Except LatexError String}
    (writes : ∀ left right, write (.binary op left right) =
      left.latex >>= fun l => right.latex >>= join l) : (binary op s t).Framed write := by
  obtain ⟨frame, writes_left⟩ := framed
  obtain ⟨frame', writes_right⟩ := framed'
  obtain ⟨whole, fill⟩ := joins.exists_frame frame frame'
  refine ⟨whole, fun e same => ?_⟩
  obtain ⟨left, right, rfl, rfl, rfl⟩ := Expr.eq_binary_of_shape same
  rw [writes, writes_left left rfl, writes_right right rfl]
  exact fill left.names right.names left.length_names right.length_names

theorem Framed.binary (framed : s.Framed Expr.latex) (framed' : t.Framed Expr.latex) :
    (binary op s t).Framed Expr.latex :=
  framed.joined framed' op.joins_latexBetween fun left right => by rw [Expr.latex]

theorem Framed.range (framed : s.Framed Expr.latex) (framed' : t.Framed Expr.latex)
    (symbol : String) : (Shape.binary .upTo s t).Framed (latexBound symbol) :=
  framed.joined framed' (joins_braced (symbol ++ "_") "^") fun left right => by rw [latexBound]

theorem Framed.upper (framed : s.Framed Expr.latex) (symbol : String)
    (no_range : ∀ lower upper, s ≠ Shape.binary .upTo lower upper) :
    s.Framed (latexBound symbol) := by
  refine framed.wrapped (wraps_braced (symbol ++ "^")) rfl fun e same => ⟨e, same, rfl, ?_⟩
  rw [latexBound]
  rintro lower upper rfl
  exact no_range _ _ same.symm

theorem framedAll_singleton {symbol : String} (framed : s.Framed (latexBound symbol)) :
    FramedAll [s] (latexRow symbol) := by
  obtain ⟨frame, writes⟩ := framed
  refine ⟨frame, fun es same => ?_⟩
  obtain ⟨e, es, rfl, rfl, none⟩ := Expr.eq_cons_of_shapes same
  obtain rfl := Expr.eq_nil_of_shapes none
  have names : Expr.namesAll [e] = e.names := List.append_nil _
  rw [Expr.latexRow_singleton, writes e rfl, names]
  rfl

theorem framedAll_cons {symbol : String} (framed : s.Framed (latexBound symbol))
    (framed_others : FramedAll (t :: ss) (latexRow symbol)) :
    FramedAll (s :: t :: ss) (latexRow symbol) := by
  obtain ⟨frame, writes⟩ := framed
  obtain ⟨frame', writes_others⟩ := framed_others
  have space : " " ≠ "" := by decide
  obtain ⟨whole, fill⟩ := (joins_text space).exists_frame frame frame'
  refine ⟨whole, fun es same => ?_⟩
  obtain ⟨a, es, rfl, rfl, others⟩ := Expr.eq_cons_of_shapes same
  obtain ⟨b, es, rfl, rfl, rfl⟩ := Expr.eq_cons_of_shapes others
  rw [Expr.latexRow_cons_cons, writes a rfl, writes_others (b :: es) rfl]
  exact fill a.names _ a.length_names (Expr.length_namesAll (b :: es))

theorem framed_unknown (unknown : op.boundedSymbol? = none) :
    (bounded op ss s).Framed Expr.latex := by
  refine ⟨.error (.noSymbol op .overBounds), fun e same => ?_⟩
  obtain ⟨bounds, body, rfl, -, -⟩ := Expr.eq_bounded_of_shape same
  rw [Expr.latex, unknown]
  rfl

theorem Framed.unbounded (framed : s.Framed Expr.latex) {symbol : String}
    (known : op.boundedSymbol? = some symbol) : (bounded op [] s).Framed Expr.latex := by
  refine framed.wrapped (wraps_text (symbol ++ " ")) (Nat.zero_add _) fun e same => ?_
  obtain ⟨bounds, body, rfl, none, shape⟩ := Expr.eq_bounded_of_shape same
  obtain rfl := Expr.eq_nil_of_shapes none
  refine ⟨body, shape, rfl, ?_⟩
  simp only [Expr.latex, known, Expr.latexBounds]
  rfl

theorem FramedAll.bounded {symbol : String} (framed_bounds : FramedAll (t :: ss) (latexRow symbol))
    (framed : s.Framed Expr.latex) (known : op.boundedSymbol? = some symbol) :
    (Shape.bounded op (t :: ss) s).Framed Expr.latex := by
  obtain ⟨frame, writes_bounds⟩ := framed_bounds
  obtain ⟨frame', writes⟩ := framed
  have space : " " ≠ "" := by decide
  obtain ⟨whole, fill⟩ := (joins_text space).exists_frame frame frame'
  refine ⟨whole, fun e same => ?_⟩
  obtain ⟨bounds, body, rfl, shapes, rfl⟩ := Expr.eq_bounded_of_shape same
  obtain ⟨b, bs, rfl, rfl, rfl⟩ := Expr.eq_cons_of_shapes shapes
  rw [Expr.latex_bounded_cons known, writes_bounds (b :: bs) rfl, writes body rfl]
  exact fill _ body.names (Expr.length_namesAll (b :: bs)) body.length_names

mutual

theorem framed (s : Shape) : s.Framed Expr.latex := by
  match s with
  | name => exact framed_name
  | prefixed op operand => exact (framed operand).prefixed
  | postfixed op operand => exact (framed operand).postfixed
  | binary op left right => exact (framed left).binary (framed right)
  | bounded op bounds body =>
    cases known : op.boundedSymbol? with
    | none => exact framed_unknown known
    | some symbol =>
      cases bounds with
      | nil => exact (framed body).unbounded known
      | cons bound bounds =>
        have some_bounds : bound :: bounds ≠ [] := List.cons_ne_nil bound bounds
        exact (framedAll symbol (bound :: bounds) some_bounds).bounded (framed body) known

theorem framedAll (symbol : String) (ss : List Shape) (some_bounds : ss ≠ []) :
    FramedAll ss (latexRow symbol) := by
  match ss with
  | [] => exact absurd rfl some_bounds
  | bound :: bounds =>
    have first : bound.Framed (latexBound symbol) := by
      by_cases range : ∃ lower upper, bound = binary .upTo lower upper
      · obtain ⟨lower, upper, rfl⟩ := range
        exact (framed lower).range (framed upper) symbol
      · exact (framed bound).upper symbol fun lower upper same => range ⟨lower, upper, same⟩
    cases bounds with
    | nil => exact framedAll_singleton first
    | cons next bounds =>
      exact framedAll_cons first (framedAll symbol (next :: bounds) (List.cons_ne_nil next bounds))

end

end Shape

/-- The trees of a shape have any names there are. Either all of them fail to be written, for the
same cause, or there is one frame into which each of them is written, with its names in order and
once each. -/
theorem Expr.latex_eq_frame_of_shape (s : Shape) :
    (∀ texts, (∃ e : Expr, e.shape = s ∧ e.names = texts) ↔ texts.length = s.leaves) ∧
    ((∃ cause, ∀ e : Expr, e.shape = s → e.latex = .error cause) ∨
      ∃ frame : Frame s.leaves, ∀ e : Expr, e.shape = s →
        e.latex = .ok (frame.fill e.names)) := by
  refine ⟨fun texts => ⟨?_, s.exists_of_names texts⟩, ?_⟩
  · rintro ⟨e, rfl, rfl⟩
    exact e.length_names
  · obtain ⟨frame, writes⟩ := s.framed
    cases frame with
    | error cause => exact .inl ⟨cause, writes⟩
    | ok frame => exact .inr ⟨frame, writes⟩

-- The symbol of the sum is written for every bound, and the arrow of the range is not.
example : (Expr.bounded .sum [.binary .upTo (.name "a") (.name "b"), .name "c"] (.name "x")).latex =
    .ok ((⟨["\\sum_\x7b", "\x7d^\x7b", "\x7d \\sum^\x7b", "\x7d "], "", rfl, by decide⟩ :
      Frame 4).fill ["a", "b", "c", "x"]) := rfl

end MathShorthand
