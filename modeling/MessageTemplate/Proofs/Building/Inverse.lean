/-
What a model keeps of the text that it was read from. A message that was read without any diagnostic is put together
again from its model, as a tree without places (`Message.tree`), but for one thing: markup among the expressions after
an uninterpreted statement becomes an annotation of its sigil and its name. The options of that markup are reported
nowhere and kept nowhere.

`erase_read_eq_iff`: two texts that are read without diagnostics have the same tree, up to places, if and only if they
have the same model and the same options of markup in statements.

That nothing else is lost takes what is known of such a tree: every node is proper (`proper_of_yields`), and an
annotation with a reserved sigil starts with that sigil, which is none of markup (`sigils_read`).
-/
import MessageTemplate.Proofs.Building.Erasure
import MessageTemplate.Proofs.Positions.Reported
import MessageTemplate.Proofs.Recovery.Shape

namespace MessageTemplate

open MessageTemplate.Text MessageTemplate.Syntax MessageTemplate.Scanner

/-! ## Options of markup in statements -/

namespace Syntax

def Placeholder.markupOptions : Placeholder → List Setting
  | .markup m => m.options
  | .expression _ => []
  | .junk _ => []

/-- the options of markup in a statement that is not interpreted, one list for each expression after it -/
def Declaration.markupOptions : Declaration → List (List Setting)
  | .reserved s => s.expressions.map Placeholder.markupOptions
  | .input .. => []
  | .binding .. => []
  | .junk _ => []

/-- the options of markup in statements that are not interpreted, declaration by declaration -/
def Document.statementMarkupOptions (doc : Document) : List (List (List Setting)) :=
  doc.declarations.map Declaration.markupOptions

end Syntax

/-! ## Trees of models -/

def Operand.tree : Operand → Syntax.Operand
  | .literal value => .literal ⟨.erased, false, value⟩
  | .var name => .var ⟨.erased, name⟩

def Setting.tree (s : Setting) : Syntax.Setting := ⟨.erased, s.name, s.value.tree⟩

/-- the sigil of an annotation that is not interpreted is its first character -/
def Directive.tree : Directive → Syntax.Directive
  | .function name options => .function ⟨.erased, name, options.map Setting.tree⟩
  | .unsupported source => .reserved ⟨.erased, source.toList.headD '!', source⟩

def Expression.tree (e : Expression) : Syntax.Expression :=
  ⟨.erased, e.operand.map Operand.tree, e.directive.map Directive.tree⟩

def Markup.tree (m : Markup) : Syntax.Markup := ⟨.erased, m.kind, m.name, m.options.map Setting.tree⟩

def PatternElement.tree : PatternElement → Syntax.PatternElement
  | .text value => .text ⟨.erased, value⟩
  | .expression e => .placeholder (.expression e.tree)
  | .markup m => .placeholder (.markup m.tree)

def Pattern.tree (p : Pattern) : Syntax.Pattern := ⟨.erased, false, p.map PatternElement.tree⟩

def VariantKey.tree : VariantKey → Syntax.Key
  | .literal value => .literal ⟨.erased, false, value⟩
  | .catchall => .catchall .erased

def Variant.tree (v : Variant) : Syntax.Variant := ⟨.erased, v.keys.map VariantKey.tree, Pattern.tree v.value⟩

/-- the markup that an annotation stands for in a statement, by its sigil and its name -/
def Directive.markup? (options : List Syntax.Setting) : Directive → Option Syntax.Markup
  | .function .. => none
  | .unsupported source =>
    (source.toList.head?.bind MarkupKind.ofSigil?).map fun kind =>
      ⟨.erased, kind, String.ofList source.toList.tail, options⟩

/-- an expression after a statement that is not interpreted -/
def Expression.statementTree (e : Expression) (options : List Syntax.Setting) : Syntax.Placeholder :=
  match e.directive.bind (Directive.markup? options) with
  | some m => .markup m
  | none => .expression e.tree

def Declaration.tree (d : Declaration) (options : List (List Syntax.Setting)) : Syntax.Declaration :=
  match d with
  | .input _ value => .input .erased (.expression value.tree)
  | .binding name value => .binding .erased ⟨.erased, name⟩ (.expression value.tree)
  | .unsupported keyword body expressions =>
    .reserved ⟨.erased, keyword, body, List.zipWith Expression.statementTree expressions options⟩

def Message.bodyTree : Message → Syntax.Body
  | .pattern _ elements => .pattern (Pattern.tree elements)
  | .select _ selectors variants =>
    .select ⟨.erased, selectors.map fun e => .expression e.tree, variants.map Variant.tree⟩

/-- the tree of a message, given the options of markup in its statements -/
def Message.tree (m : Message) (options : List (List (List Syntax.Setting))) : Syntax.Document :=
  ⟨.erased, List.zipWith Declaration.tree m.declarations options, m.bodyTree, []⟩

/-! ## Sigils -/

namespace Syntax

variable {c : Cursor}

/-- an annotation that is kept word for word starts with its sigil -/
def Directive.HasSigil : Directive → Prop
  | .function _ => True
  | .reserved r => isReservedSigil r.sigil = true ∧ r.source.toList.head? = some r.sigil

def Placeholder.HasSigil : Placeholder → Prop
  | .expression e => ∀ a ∈ e.directive, a.HasSigil
  | .markup _ => True
  | .junk _ => True

theorem hasSigil_reservedDirective {ch : Char} {more : List Char} (hr : c.rest = ch :: more)
    (hch : isReservedSigil ch = true) : (Directive.reserved (reservedDirective c).value).HasSigil := by
  have hsigil : (reservedDirective c).value.sigil = c.rest.head?.getD '!' := rfl
  obtain ⟨cs, hsource, -⟩ := reservedDirective_source hr
  rw [hr] at hsigil
  refine ⟨hsigil ▸ hch, ?_⟩
  rw [hsource, hsigil]
  rfl

theorem answers_expression_hasSigil (start : Cursor) : Answers (expression start) Placeholder.HasSigil := by
  refine .after fun operand => .after fun spaced => Answers.bind
    (answers_directive?_of (fun _ => trivial) hasSigil_reservedDirective spaced) fun directive hsigil =>
      .after fun _ => .after fun junk => ?_
  cases junk with
  | some junk => exact .pure trivial
  | none =>
    refine .after fun stop => ?_
    split
    · exact .after fun _ => .pure trivial
    · exact .pure hsigil

/-- annotations start with their sigils, wherever they stand -/
theorem sigils_read (source : String) : ∀ p ∈ (Document.read source).placeholders, p.HasSigil :=
  have hplaceholder : Answers placeholder Placeholder.HasSigil :=
    answers_placeholder_of (fun _ => trivial) (fun _ => trivial) answers_expression_hasSigil
  placeholders_read (fun c _ => hplaceholder c) (fun _ => trivial) source

/-! ## Proper trees -/

/-- where nothing was reported, every node is proper -/
theorem proper_of_yields {source : String} {dcls : List Declaration} {body : Body} {d : Cursor}
    (h : (messageScanner source).Yields (.ofString source) (dcls, body) d) :
    (∀ x ∈ dcls, (Node.declaration x).Everywhere Node.IsProper) ∧ body.node.Everywhere Node.IsProper := by
  obtain ⟨hvalue, herrors, -⟩ := yields_iff.1 h
  have hsettled : Ensures source [] (messageScanner source) (.ofString source) _ := messageScanner_settled source _
  obtain ⟨-, -, hdeclarations, hbody⟩ := hsettled (Cursor.In.start source) (by rw [herrors]; exact List.Subset.refl [])
  rw [hvalue] at hdeclarations hbody
  have hproper {n : Node} (hn : n.Settled []) : n.Everywhere Node.IsProper := hn.imp fun m hm => hm.resolve_right (by
    rintro ⟨_, ⟨⟩, -⟩)
  exact ⟨fun x hx => hproper (hdeclarations x hx), hproper hbody⟩

end Syntax

/-! ## Trees of what was built -/

theorem map_eq_of_forall₂ {α β γ : Type} {R : α → β → Prop} {f : α → γ} {g : β → γ} {as : List α} {bs : List β}
    (h : List.Forall₂ R as bs) (hR : ∀ a ∈ as, ∀ b, R a b → f a = g b) : as.map f = bs.map g := by
  induction h with
  | nil => rfl
  | cons hab _ ih =>
    obtain ⟨ha, has⟩ := List.forall_mem_cons.1 hR
    rw [List.map_cons, List.map_cons, ha _ hab, ih has]

theorem erase_operand (o : Syntax.Operand) : o.erase = (buildOperand o).tree := by
  cases o with
  | literal l => rfl
  | var v => rfl

theorem erase_settings (ss : List Syntax.Setting) :
    ss.map Syntax.Setting.erase = (ss.map Syntax.Setting.plain).map Setting.tree := by
  have hsetting (s : Syntax.Setting) : s.erase = s.plain.tree := by
    have hvalue := erase_operand s.value
    unfold Syntax.Setting.erase
    rw [hvalue]
    rfl
  rw [List.map_map]
  exact List.map_congr_left fun s _ => hsetting s

theorem erase_directive {a : Syntax.Directive} {b : Directive} (h : (buildDirective a).Yields b)
    (hsigil : a.HasSigil) : a.erase = b.tree := by
  cases a with
  | function f =>
    obtain ⟨options, hoptions, hb⟩ := Built.yields_bind.1 h
    rw [Built.yields_pure.1 hb, (buildOptions_nil_yields.1 hoptions).1]
    exact congrArg (fun ss => Syntax.Directive.function ⟨.erased, f.name, ss⟩) (erase_settings f.options)
  | reserved r =>
    have hhead : r.source.toList.headD '!' = r.sigil := by
      rw [List.headD_eq_head?_getD, hsigil.2, Option.getD_some]
    rw [Built.yields_pure.1 h]
    exact congrArg (fun ch => Syntax.Directive.reserved ⟨.erased, ch, r.source⟩) hhead.symm

/-- a reserved sigil is none of markup -/
theorem ofSigil?_reserved {ch : Char} (h : isReservedSigil ch = true) : MarkupKind.ofSigil? ch = none := by
  cases hk : MarkupKind.ofSigil? ch with
  | none => rfl
  | some kind =>
    rw [MarkupKind.ofSigil?_eq_some_iff.1 hk] at h
    cases kind <;> exact absurd h (by decide)

theorem markup?_eq_none {a : Syntax.Directive} {b : Directive} (h : (buildDirective a).Yields b)
    (hsigil : a.HasSigil) (options : List Syntax.Setting) : b.markup? options = none := by
  cases a with
  | function f =>
    obtain ⟨_, -, hb⟩ := Built.yields_bind.1 h
    rw [Built.yields_pure.1 hb]
    rfl
  | reserved r =>
    rw [Built.yields_pure.1 h]
    simp [Directive.markup?, hsigil.2, ofSigil?_reserved hsigil.1]

/-- an expression comes back, and it is not taken for markup -/
theorem erase_expression {e : Syntax.Expression} {x : Expression} (h : (buildExpression e).Yields x)
    (hsigil : (Syntax.Placeholder.expression e).HasSigil) :
    e.erase = x.tree ∧ ∀ options, x.directive.bind (Directive.markup? options) = none := by
  obtain ⟨span, operand, directive⟩ := e
  obtain ⟨xoperand, xdirective⟩ := x
  obtain ⟨rfl, hdirective⟩ := buildExpression_yields.1 h
  have hoperand : operand.map Syntax.Operand.erase = (operand.map buildOperand).map Operand.tree := by
    rw [Option.map_map]
    exact Option.map_congr fun o _ => erase_operand o
  unfold Syntax.Expression.erase Expression.tree
  dsimp only at hdirective ⊢
  rw [hoperand]
  cases hdirective with
  | none => exact ⟨rfl, fun _ => rfl⟩
  | @some a b hb =>
    have ha : a.HasSigil := hsigil a rfl
    exact ⟨congrArg (fun t => Syntax.Expression.mk .erased _ (some t)) (erase_directive hb ha), markup?_eq_none hb ha⟩

theorem erase_markup {m : Syntax.Markup} {x : Markup} (h : (buildMarkup m).Yields x) : m.erase = x.tree := by
  obtain ⟨kind, name, options⟩ := x
  obtain ⟨rfl, rfl, rfl, -⟩ := buildMarkup_yields.1 h
  unfold Syntax.Markup.erase Markup.tree
  rw [erase_settings]

/-- where an expression is asked for, it is one -/
theorem erase_placeholder {p : Syntax.Placeholder} {x : Expression} (h : (buildPlaceholder p).Yields x)
    (hexpression : p.isExpression = true) (hsigil : p.HasSigil) : p.erase = .expression x.tree := by
  cases p with
  | expression e => exact congrArg Syntax.Placeholder.expression (erase_expression h hsigil).1
  | markup m => cases hexpression
  | junk j => cases hexpression

/-- an expression after a statement comes back, given the options that it has if it is markup -/
theorem erase_trailing {p : Syntax.Placeholder} {x : Expression} (h : (buildPlaceholder p).Yields x)
    (hproper : (Node.placeholder p).IsProper) (hsigil : p.HasSigil) :
    p.erase = x.statementTree p.erase.markupOptions := by
  unfold Expression.statementTree
  cases p with
  | expression e =>
    obtain ⟨hexpression, hmarkup⟩ := erase_expression h hsigil
    rw [hmarkup]
    exact congrArg Syntax.Placeholder.expression hexpression
  | markup m =>
    rw [Built.yields_pure.1 h]
    obtain ⟨span, kind, name, options⟩ := m
    have hkind : MarkupKind.ofSigil? kind.sigil = some kind := MarkupKind.ofSigil?_eq_some_iff.2 rfl
    simp [unsupported, Directive.markup?, hkind, Syntax.Placeholder.erase, Syntax.Markup.erase,
      Syntax.Placeholder.markupOptions]
  | junk j => exact hproper.elim

theorem erase_trailing_all {ps : List Syntax.Placeholder} {xs : List Expression}
    (h : List.Forall₂ (fun p x => (buildPlaceholder p).Yields x) ps xs)
    (hproper : ∀ p ∈ ps, (Node.placeholder p).IsProper ∧ p.HasSigil) :
    ps.map Syntax.Placeholder.erase =
      List.zipWith Expression.statementTree xs
        ((ps.map Syntax.Placeholder.erase).map Syntax.Placeholder.markupOptions) := by
  induction h with
  | nil => rfl
  | cons hx _ ih =>
    obtain ⟨hp, hmore⟩ := List.forall_mem_cons.1 hproper
    exact congrArg₂ List.cons (erase_trailing hx hp.1 hp.2) (ih hmore)

theorem erase_element {y : Syntax.PatternElement} {x : PatternElement} (h : (buildElement y).Yields x)
    (hproper : ∀ p, y = .placeholder p → (Node.placeholder p).IsProper ∧ p.HasSigil) : y.erase = x.tree := by
  cases y with
  | text run =>
    rw [Built.yields_pure.1 h]
    rfl
  | placeholder p =>
    obtain ⟨hproper, hsigil⟩ := hproper p rfl
    cases p with
    | markup m =>
      obtain ⟨markup, hmarkup, hx⟩ := Built.yields_bind.1 h
      rw [Built.yields_pure.1 hx]
      exact congrArg (fun m => Syntax.PatternElement.placeholder (.markup m)) (erase_markup hmarkup)
    | expression e =>
      obtain ⟨expression, hexpression, hx⟩ := Built.yields_bind.1 h
      rw [Built.yields_pure.1 hx]
      exact congrArg (fun e => Syntax.PatternElement.placeholder (.expression e))
        (erase_expression hexpression hsigil).1
    | junk j => exact hproper.elim

theorem erase_pattern {p : Syntax.Pattern} {elements : Pattern} (h : (buildPattern p).Yields elements)
    (hproper : (Node.pattern p).Everywhere Node.IsProper) (hsigil : ∀ q ∈ p.placeholders, q.HasSigil) :
    p.erase = Pattern.tree elements := by
  have hbody : p.body.map Syntax.PatternElement.erase = elements.map PatternElement.tree :=
    map_eq_of_forall₂ (Built.yields_forEach.1 h) fun y hy x hx => erase_element hx fun q hq => by
      subst hq
      exact ⟨(hproper.child (List.mem_map_of_mem hy)).here, hsigil q (List.mem_filterMap.2 ⟨_, hy, rfl⟩)⟩
  unfold Syntax.Pattern.erase Pattern.tree
  rw [hbody]

/-! ## Declarations -/

theorem erase_input {value : Syntax.Placeholder} {b : Option Declaration} (h : (buildInput? value).Yields b)
    (hproper : (Node.placeholder value).Everywhere Node.IsProper) (hvariable : value.OnVariable)
    (hsigil : value.HasSigil) : ∃ name x, b = some (.input name x) ∧ value.erase = .expression x.tree := by
  cases value with
  | markup m => exact hvariable.elim
  | junk j => exact hvariable.elim
  | expression e =>
    obtain ⟨v, hv⟩ := hvariable
    have hname : v.name ≠ "" := (hproper.child (m := .operand (.var v)) (by simp [Node.children, hv])).here
    simp only [buildInput?, hv, if_neg hname] at h
    obtain ⟨x, hx, hb⟩ := Built.yields_bind.1 h
    exact ⟨v.name, x, Built.yields_pure.1 hb, congrArg Syntax.Placeholder.expression (erase_expression hx hsigil).1⟩

/-- a proper declaration is built, and its tree comes back -/
theorem erase_declaration {d : Syntax.Declaration} {b : Option Declaration} (h : (buildDeclaration? d).Yields b)
    (hproper : (Node.declaration d).Everywhere Node.IsProper) (hsigil : ∀ p ∈ d.placeholders, p.HasSigil) :
    ∃ m, b = some m ∧ d.erase = m.tree d.erase.markupOptions := by
  cases d with
  | input span value =>
    obtain ⟨name, x, rfl, hvalue⟩ := erase_input h (hproper.child List.mem_cons_self) hproper.here
      (hsigil value List.mem_cons_self)
    exact ⟨_, rfl, congrArg (Syntax.Declaration.input .erased) hvalue⟩
  | binding span target value =>
    have hname : target.name ≠ "" := (hproper.child (m := .target target) (by simp [Node.children])).here
    simp only [buildDeclaration?, if_neg hname] at h
    obtain ⟨x, hx, hb⟩ := Built.yields_bind.1 h
    exact ⟨_, Built.yields_pure.1 hb, congrArg (Syntax.Declaration.binding .erased target.erase)
      (erase_placeholder hx hproper.here (hsigil value List.mem_cons_self))⟩
  | reserved s =>
    obtain ⟨xs, hxs, hb⟩ := Built.yields_bind.1 h
    have hexpressions := erase_trailing_all (Built.yields_forEach.1 hxs) fun p hp =>
      ⟨(hproper.child (List.mem_map_of_mem hp)).here, hsigil p hp⟩
    exact ⟨_, Built.yields_pure.1 hb,
      congrArg (fun ps => Syntax.Declaration.reserved ⟨.erased, s.keyword, s.body, ps⟩) hexpressions⟩
  | junk j => exact hproper.here.elim

theorem erase_declarations {ds : List Syntax.Declaration} {out : List (Declaration × Span)}
    (h : (buildDeclarations ds).Yields out) (hproper : ∀ d ∈ ds, (Node.declaration d).Everywhere Node.IsProper)
    (hsigil : ∀ d ∈ ds, ∀ p ∈ d.placeholders, p.HasSigil) :
    ds.map Syntax.Declaration.erase =
      List.zipWith Declaration.tree (out.map Prod.fst)
        ((ds.map Syntax.Declaration.erase).map Syntax.Declaration.markupOptions) := by
  induction ds generalizing out with
  | nil =>
    rw [Built.yields_pure.1 h]
    rfl
  | cons d more ih =>
    obtain ⟨hd, hmore⟩ := List.forall_mem_cons.1 hproper
    obtain ⟨hdsigil, hsigils⟩ := List.forall_mem_cons.1 hsigil
    obtain ⟨b, hb, h⟩ := Built.yields_bind.1 h
    obtain ⟨rest, hrest, h⟩ := Built.yields_bind.1 h
    obtain ⟨m, rfl, hm⟩ := erase_declaration hb hd hdsigil
    rw [Built.yields_pure.1 h]
    exact congrArg₂ List.cons hm (ih hrest hmore hsigils)

/-! ## Bodies -/

theorem erase_key (k : Syntax.Key) : k.erase = (buildKey k).tree := by
  cases k with
  | literal l => rfl
  | catchall span => rfl

theorem erase_selection {s : Selection} {selectors : List Expression} {variants : List Variant}
    (hselectors : List.Forall₂ (fun p x => (buildPlaceholder p).Yields x) s.selectors selectors)
    (hvariants : (buildVariants selectors.length [] s.variants).Yields variants)
    (hproper : (Node.selection s).Everywhere Node.IsProper) (hsigil : ∀ p ∈ (Body.select s).placeholders, p.HasSigil) :
    s.erase = ⟨.erased, selectors.map fun e => .expression e.tree, variants.map Variant.tree⟩ := by
  have hchosen : s.selectors.map Syntax.Placeholder.erase = selectors.map fun e => .expression e.tree :=
    map_eq_of_forall₂ hselectors fun p hp x hx =>
      erase_placeholder hx (hproper.here.2.1 p hp) (hsigil p (List.mem_append_left _ hp))
  have hkept : s.variants.map Syntax.Variant.erase = variants.map Variant.tree := by
    refine map_eq_of_forall₂ (buildVariants_yields.1 hvariants).1 fun v hv w hw => ?_
    obtain ⟨keys, value⟩ := w
    obtain ⟨rfl, hvalue⟩ := hw
    have hvariant : (Node.variant v).Everywhere Node.IsProper :=
      hproper.child (List.mem_append_right _ (List.mem_map_of_mem hv))
    have hpattern : v.value.erase = Pattern.tree value :=
      erase_pattern hvalue (hvariant.child (List.mem_append_right _ List.mem_cons_self)) fun q hq =>
        hsigil q (List.mem_append_right _ (List.mem_flatMap.2 ⟨v, hv, hq⟩))
    have hkeys : v.keys.map Syntax.Key.erase = (v.keys.map buildKey).map VariantKey.tree := by
      rw [List.map_map]
      exact List.map_congr_left fun k _ => erase_key k
    unfold Syntax.Variant.erase Variant.tree
    rw [hkeys, hpattern]
  unfold Selection.erase
  rw [hchosen, hkept]

/-! ## Main results -/

/-- **A message that was read without diagnostics comes back from its model**, as a tree without places, once the
options of markup in its statements are given. -/
theorem erase_read {source : String} {m : Message} (h : parse source = (m, [])) :
    (Document.read source).erase = m.tree (Document.read source).erase.statementMarkupOptions := by
  obtain ⟨ds, body, d, hscan, hbuild⟩ := parse_eq_nil_iff.1 h
  obtain ⟨hproper, hbody⟩ := proper_of_yields hscan
  have hsigils := sigils_read source
  obtain ⟨hvalue, herrors, -⟩ := yields_iff.1 hscan
  have hread := read_eq source
  rw [hvalue, herrors] at hread
  rw [hread] at hsigils ⊢
  have hdeclared {declarations : List Declaration} (hd : Declared ds declarations) :
      ds.map Syntax.Declaration.erase =
        List.zipWith Declaration.tree declarations
          ((ds.map Syntax.Declaration.erase).map Syntax.Declaration.markupOptions) := by
    obtain ⟨⟨out, hout, rfl⟩, -⟩ := hd
    exact erase_declarations hout hproper fun x hx p hp =>
      hsigils p (List.mem_append_left _ (List.mem_flatMap.2 ⟨x, hx, hp⟩))
  have hsigil : ∀ p ∈ body.placeholders, p.HasSigil := fun p hp => hsigils p (List.mem_append_right _ hp)
  cases body with
  | pattern p =>
    obtain ⟨declarations, elements, hd, helements, rfl⟩ := buildMessage_pattern.1 hbuild
    exact congrArg₂ (fun ds p => Document.mk .erased ds (.pattern p) []) (hdeclared hd)
      (erase_pattern helements hbody hsigil)
  | select s =>
    obtain ⟨declarations, selectors, variants, hd, hselectors, hvariants, -, -, rfl⟩ := buildMessage_select.1 hbuild
    exact congrArg₂ (fun ds s => Document.mk .erased ds (.select s) []) (hdeclared hd)
      (erase_selection hselectors hvariants hbody hsigil)

/-- **Building loses the options of markup in statements, and nothing else.** Of texts that are read without
diagnostics, those with equal models and equal options of markup in their statements are those with equal trees, up to
places and to the ways in which literals and patterns are written. -/
theorem erase_read_eq_iff {s t : String} (hs : (parse s).2 = []) (ht : (parse t).2 = []) :
    (Document.read s).erase = (Document.read t).erase ↔
      (parse s).1 = (parse t).1 ∧
        (Document.read s).erase.statementMarkupOptions = (Document.read t).erase.statementMarkupOptions := by
  constructor
  · intro h
    refine ⟨?_, congrArg Document.statementMarkupOptions h⟩
    calc (parse s).1
      _ = (buildMessage (Document.read s).erase).value := (value_buildMessage_erase (Document.read s)).symm
      _ = (buildMessage (Document.read t).erase).value := by rw [h]
      _ = (parse t).1 := value_buildMessage_erase (Document.read t)
  · rintro ⟨hmodel, hoptions⟩
    calc (Document.read s).erase
      _ = (parse s).1.tree (Document.read s).erase.statementMarkupOptions := erase_read (Prod.ext rfl hs)
      _ = (parse t).1.tree (Document.read t).erase.statementMarkupOptions := by rw [hmodel, hoptions]
      _ = (Document.read t).erase := (erase_read (Prod.ext rfl ht)).symm

/-- the option of the markup after the statement is lost -/
theorem erase_read_ne_of_option :
    let s := ".foo \x7b+b x=1\x7d\n\x7b\x7b\x7d\x7d"
    let t := ".foo \x7b+b\x7d\n\x7b\x7b\x7d\x7d"
    (parse s).2 = [] ∧ (parse t).2 = [] ∧ (parse s).1 = (parse t).1 ∧
      (Document.read s).erase ≠ (Document.read t).erase := by
  intro s t
  have hs : (parse s).2 = [] := by decide +kernel
  have ht : (parse t).2 = [] := by decide +kernel
  exact ⟨hs, ht, by decide +kernel, fun h => absurd ((erase_read_eq_iff hs ht).1 h).2 (by decide +kernel)⟩

end MessageTemplate
