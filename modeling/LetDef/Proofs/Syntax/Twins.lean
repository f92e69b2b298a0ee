import LetDef.Proofs.Position.Move
import LetDef.Proofs.Syntax.Numbering
import Mathlib.Data.List.Forall2

/-!
# Twin trees

Twins are trees with the same shape and the same names, sorts and operators. Their marks and the
data of their literals may differ, and a relation `M` says how the marks of two nodes in the same
place are related. Trees that are the same are twins. Numbering makes twins whose numbers are the
same, and the listings of twins pair them node by node.
-/

namespace LetDef

namespace Node

/-- The trees differ in marks and in the data of literals only, and `M` relates the marks of nodes
in the same place. Of a part that may be omitted nothing is asked where both trees omit it. -/
inductive Twins (M : Option Kind → Mark → Mark → Prop) : Node → Node → Prop
  | absent (hm : M none {} {}) : Twins M .absent .absent
  | literal {m m' : Mark} {v v' : Datum} {sort : String} (hm : M (some .literal) m m') :
      Twins M (.literal m v sort) (.literal m' v' sort)
  | group {m m' : Mark} {e e' : Node} (hm : M (some .group) m m') (he : Twins M e e') :
      Twins M (.group m e) (.group m' e')
  | binary {m m' : Mark} {operator : String} {l l' r r' : Node} (hm : M (some .binary) m m')
      (hl : Twins M l l') (hr : Twins M r r') :
      Twins M (.binary m operator l r) (.binary m' operator l' r')
  | access {m m' : Mark} {r r' : Node} {name : String} (hm : M (some .access) m m')
      (hp : r'.isPresent = r.isPresent) (hr : r.isPresent = true → Twins M r r') :
      Twins M (.access m r name) (.access m' r' name)
  | call {m m' : Mark} {r r' : Node} {name : String} {es es' : List Node}
      (hm : M (some .call) m m') (hp : r'.isPresent = r.isPresent)
      (hr : r.isPresent = true → Twins M r r') (hes : List.Forall₂ (Twins M) es es') :
      Twins M (.call m r name es) (.call m' r' name es')
  | perform {m m' : Mark} {e e' : Node} (hm : M (some .perform) m m') (he : Twins M e e') :
      Twins M (.perform m e) (.perform m' e')
  | declare {m m' : Mark} {name : String} {typeName : Option String} {v v' : Node}
      (hm : M (some .declare) m m') (hp : v'.isPresent = v.isPresent)
      (hv : v.isPresent = true → Twins M v v') :
      Twins M (.declare m name typeName v) (.declare m' name typeName v')
  | assign {m m' : Mark} {r r' v v' : Node} (hm : M (some .assign) m m') (hr : Twins M r r')
      (hv : Twins M v v') : Twins M (.assign m r v) (.assign m' r' v')
  | branch {m m' : Mark} {c c' : Node} {body body' other other' : List Node}
      (hm : M (some .branch) m m') (hc : Twins M c c') (hb : List.Forall₂ (Twins M) body body')
      (ho : List.Forall₂ (Twins M) other other') :
      Twins M (.branch m c body other) (.branch m' c' body' other')
  | forLoop {m m' : Mark} {f f' c c' l l' : Node} {body body' : List Node}
      (hm : M (some .forLoop) m m') (hpf : f'.isPresent = f.isPresent)
      (hf : f.isPresent = true → Twins M f f') (hpc : c'.isPresent = c.isPresent)
      (hc : c.isPresent = true → Twins M c c') (hpl : l'.isPresent = l.isPresent)
      (hl : l.isPresent = true → Twins M l l') (hb : List.Forall₂ (Twins M) body body') :
      Twins M (.forLoop m f c l body) (.forLoop m' f' c' l' body')
  | whileLoop {m m' : Mark} {c c' : Node} {body body' : List Node}
      (hm : M (some .whileLoop) m m') (hc : Twins M c c')
      (hb : List.Forall₂ (Twins M) body body') :
      Twins M (.whileLoop m c body) (.whileLoop m' c' body')
  | giveBack {m m' : Mark} {v v' : Node} (hm : M (some .giveBack) m m') (hv : Twins M v v') :
      Twins M (.giveBack m v) (.giveBack m' v')
  | field {m m' : Mark} {name : String} {typeName : Option String} {constant : Bool} {v v' : Node}
      (hm : M (some .field) m m') (hp : v'.isPresent = v.isPresent)
      (hv : v.isPresent = true → Twins M v v') :
      Twins M (.field m name typeName constant v) (.field m' name typeName constant v')
  | method {m m' : Mark} {name : String} {parameters types : List String}
      {returns : Option String} {body body' : List Node} (hm : M (some .method) m m')
      (hb : List.Forall₂ (Twins M) body body') :
      Twins M (.method m name parameters types returns body)
        (.method m' name parameters types returns body')
  | program {m m' : Mark} {fs fs' ms ms' : List Node} (hm : M (some .program) m m')
      (hfs : List.Forall₂ (Twins M) fs fs') (hms : List.Forall₂ (Twins M) ms ms') :
      Twins M (.program m fs ms) (.program m' fs' ms')

variable {M M' : Option Kind → Mark → Mark → Prop} {n n' : Node} {ns ns' : List Node}

lemma Twins.mark (h : Twins M n n') : M n.kind? n.mark n'.mark := by
  cases h <;> assumption

lemma Twins.kind? (h : Twins M n n') : n'.kind? = n.kind? := by
  cases h <;> rfl

lemma eq_absent_of_isPresent (h : n.isPresent = false) : n = .absent := by
  cases n with
  | absent => rfl
  | _ => cases h

/-! ### Trees that are the same -/

lemma isPresent_of_same (h : n.same n' = true) : n'.isPresent = n.isPresent := by
  cases n <;> cases n' <;> first | rfl | cases h

lemma forall₂_of_same {R : Node → Node → Prop} (hR : ∀ n ∈ ns, ∀ n', n.same n' = true → R n n')
    (h : same.all ns ns' = true) : List.Forall₂ R ns ns' := by
  induction ns generalizing ns' with
  | nil =>
    cases ns' with
    | nil => exact .nil
    | cons => cases h
  | cons n ns ih =>
    cases ns' with
    | nil => cases h
    | cons n' ns' =>
      rw [same.all, Bool.and_eq_true] at h
      rw [List.forall_mem_cons] at hR
      exact .cons (hR.1 n' h.1) (ih hR.2 h.2)

/-- Trees that are the same are twins, whatever their marks. -/
theorem Twins.of_same (h : n.same n' = true) : Twins (fun _ _ _ => True) n n' := by
  induction n using nestedInduction generalizing n' with
  | absent =>
    cases n' with
    | absent => exact .absent trivial
    | _ => cases h
  | literal m v sort =>
    cases n' with
    | literal m' v' sort' =>
      simp only [same, Bool.and_eq_true, beq_iff_eq] at h
      obtain ⟨_, rfl⟩ := h
      exact .literal trivial
    | _ => cases h
  | group m e ih =>
    cases n' with
    | group m' e' => exact .group trivial (ih h)
    | _ => cases h
  | binary m operator l r ihl ihr =>
    cases n' with
    | binary m' operator' l' r' =>
      simp only [same, Bool.and_eq_true, beq_iff_eq] at h
      obtain ⟨⟨rfl, hl⟩, hr⟩ := h
      exact .binary trivial (ihl hl) (ihr hr)
    | _ => cases h
  | access m r name ih =>
    cases n' with
    | access m' r' name' =>
      simp only [same, Bool.and_eq_true, beq_iff_eq] at h
      obtain ⟨hr, rfl⟩ := h
      exact .access trivial (isPresent_of_same hr) fun _ => ih hr
    | _ => cases h
  | call m r name es ih ihs =>
    cases n' with
    | call m' r' name' es' =>
      simp only [same, Bool.and_eq_true, beq_iff_eq] at h
      obtain ⟨⟨hr, rfl⟩, hes⟩ := h
      exact .call trivial (isPresent_of_same hr) (fun _ => ih hr)
        (forall₂_of_same (fun n hn _ => ihs n hn) hes)
    | _ => cases h
  | perform m e ih =>
    cases n' with
    | perform m' e' => exact .perform trivial (ih h)
    | _ => cases h
  | declare m name typeName v ih =>
    cases n' with
    | declare m' name' typeName' v' =>
      simp only [same, Bool.and_eq_true, beq_iff_eq] at h
      obtain ⟨⟨rfl, rfl⟩, hv⟩ := h
      exact .declare trivial (isPresent_of_same hv) fun _ => ih hv
    | _ => cases h
  | assign m r v ihr ihv =>
    cases n' with
    | assign m' r' v' =>
      simp only [same, Bool.and_eq_true] at h
      exact .assign trivial (ihr h.1) (ihv h.2)
    | _ => cases h
  | branch m c body other ihc ihb iho =>
    cases n' with
    | branch m' c' body' other' =>
      simp only [same, Bool.and_eq_true] at h
      obtain ⟨⟨hc, hb⟩, ho⟩ := h
      exact .branch trivial (ihc hc) (forall₂_of_same (fun n hn _ => ihb n hn) hb)
        (forall₂_of_same (fun n hn _ => iho n hn) ho)
    | _ => cases h
  | forLoop m f c l body ihf ihc ihl ihb =>
    cases n' with
    | forLoop m' f' c' l' body' =>
      simp only [same, Bool.and_eq_true] at h
      obtain ⟨⟨⟨hf, hc⟩, hl⟩, hb⟩ := h
      exact .forLoop trivial (isPresent_of_same hf) (fun _ => ihf hf) (isPresent_of_same hc)
        (fun _ => ihc hc) (isPresent_of_same hl) (fun _ => ihl hl)
        (forall₂_of_same (fun n hn _ => ihb n hn) hb)
    | _ => cases h
  | whileLoop m c body ihc ihb =>
    cases n' with
    | whileLoop m' c' body' =>
      simp only [same, Bool.and_eq_true] at h
      exact .whileLoop trivial (ihc h.1) (forall₂_of_same (fun n hn _ => ihb n hn) h.2)
    | _ => cases h
  | giveBack m v ih =>
    cases n' with
    | giveBack m' v' => exact .giveBack trivial (ih h)
    | _ => cases h
  | field m name typeName constant v ih =>
    cases n' with
    | field m' name' typeName' constant' v' =>
      simp only [same, Bool.and_eq_true, beq_iff_eq] at h
      obtain ⟨⟨⟨rfl, rfl⟩, rfl⟩, hv⟩ := h
      exact .field trivial (isPresent_of_same hv) fun _ => ih hv
    | _ => cases h
  | method m name parameters types returns body ihb =>
    cases n' with
    | method m' name' parameters' types' returns' body' =>
      simp only [same, Bool.and_eq_true, beq_iff_eq] at h
      obtain ⟨⟨⟨⟨rfl, rfl⟩, rfl⟩, rfl⟩, hb⟩ := h
      exact .method trivial (forall₂_of_same (fun n hn _ => ihb n hn) hb)
    | _ => cases h
  | program m fs ms ihf ihm =>
    cases n' with
    | program m' fs' ms' =>
      simp only [same, Bool.and_eq_true] at h
      exact .program trivial (forall₂_of_same (fun n hn _ => ihf n hn) h.1)
        (forall₂_of_same (fun n hn _ => ihm n hn) h.2)
    | _ => cases h

/-! ### Listings -/

/-- Entries of two listings with the same depth and with twins. -/
structure Paired (M : Option Kind → Mark → Mark → Prop) (e e' : Nat × Node) : Prop where
  depth : e'.1 = e.1
  twins : Twins M e.2 e'.2

/-- `M` relates the marks of the entries of two listings, entry by entry. -/
def Covered (M : Option Kind → Mark → Mark → Prop) (r r' : List (Nat × Node)) : Prop :=
  ∀ e ∈ r.zip r', M e.1.2.kind? e.1.2.mark e.2.2.mark

section

variable {r r' : List (Nat × Node)} {d d' : Nat}

lemma Covered.head (h : Covered M ((d, n) :: r) ((d', n') :: r')) : M n.kind? n.mark n'.mark :=
  h ((d, n), d', n') (List.mem_cons_self ..)

lemma Covered.tail (h : Covered M ((d, n) :: r) ((d', n') :: r')) : Covered M r r' :=
  fun e he => h e (List.mem_cons_of_mem _ he)

/-- A part that may be omitted is listed in both or in neither. -/
lemma forall₂_optional {R : Nat × Node → Nat × Node → Prop} (hp : n'.isPresent = n.isPresent)
    (h : n.isPresent = true → List.Forall₂ R (n.listFrom d r) (n'.listFrom d r'))
    (hr : List.Forall₂ R r r') :
    List.Forall₂ R (n.optional (n.listFrom d) r) (n'.optional (n'.listFrom d) r') := by
  unfold optional
  rw [hp]
  split
  · next hn => exact h hn
  · exact hr

lemma Covered.optional (hp : n'.isPresent = n.isPresent)
    (h : Covered M (n.optional (n.listFrom d) r) (n'.optional (n'.listFrom d') r'))
    (hn : n.isPresent = true → Covered M (n.listFrom d r) (n'.listFrom d' r') →
      Twins M n n' ∧ Covered M r r') :
    (n.isPresent = true → Twins M n n') ∧ Covered M r r' := by
  unfold Node.optional at h
  rw [hp] at h
  cases hpresent : n.isPresent with
  | true =>
    rw [hpresent] at h
    obtain ⟨htwins, hrest⟩ := hn hpresent h
    exact ⟨fun _ => htwins, hrest⟩
  | false =>
    rw [hpresent] at h
    exact ⟨nofun, h⟩

end

mutual

/-- The listings of twins pair them node by node. -/
theorem Twins.listFrom : ∀ {n n' : Node}, Twins M n n' → ∀ {d : Nat} {r r' : List (Nat × Node)},
    List.Forall₂ (Paired M) r r' → List.Forall₂ (Paired M) (n.listFrom d r) (n'.listFrom d r')
  | _, _, .absent hm, _, _, _, hr => .cons ⟨rfl, .absent hm⟩ hr
  | _, _, .literal hm, _, _, _, hr => .cons ⟨rfl, .literal hm⟩ hr
  | _, _, .group hm he, _, _, _, hr => .cons ⟨rfl, .group hm he⟩ (he.listFrom hr)
  | _, _, .binary hm hl hr, _, _, _, h =>
    .cons ⟨rfl, .binary hm hl hr⟩ (hl.listFrom (hr.listFrom h))
  | _, _, .access hm hp hr, _, _, _, h =>
    .cons ⟨rfl, .access hm hp hr⟩ (forall₂_optional hp (fun hn => (hr hn).listFrom h) h)
  -- The listing is built from its end, so the arguments come before the receiver here.
  | _, _, .call hm hp hr hes, _, _, _, h =>
    have hes' := Twins.listFromAll hes h
    .cons ⟨rfl, .call hm hp hr hes⟩ (forall₂_optional hp (fun hn => (hr hn).listFrom hes') hes')
  | _, _, .perform hm he, _, _, _, h => .cons ⟨rfl, .perform hm he⟩ (he.listFrom h)
  | _, _, .declare hm hp hv, _, _, _, h =>
    .cons ⟨rfl, .declare hm hp hv⟩ (forall₂_optional hp (fun hn => (hv hn).listFrom h) h)
  | _, _, .assign hm hr hv, _, _, _, h =>
    .cons ⟨rfl, .assign hm hr hv⟩ (hr.listFrom (hv.listFrom h))
  | _, _, .branch hm hc hb ho, _, _, _, h =>
    .cons ⟨rfl, .branch hm hc hb ho⟩
      (hc.listFrom (Twins.listFromAll hb (Twins.listFromAll ho h)))
  | _, _, .forLoop hm hpf hf hpc hc hpl hl hb, _, _, _, h =>
    have hb' := Twins.listFromAll hb h
    have hl' := forall₂_optional hpl (fun hn => (hl hn).listFrom hb') hb'
    have hc' := forall₂_optional hpc (fun hn => (hc hn).listFrom hl') hl'
    .cons ⟨rfl, .forLoop hm hpf hf hpc hc hpl hl hb⟩
      (forall₂_optional hpf (fun hn => (hf hn).listFrom hc') hc')
  | _, _, .whileLoop hm hc hb, _, _, _, h =>
    .cons ⟨rfl, .whileLoop hm hc hb⟩ (hc.listFrom (Twins.listFromAll hb h))
  | _, _, .giveBack hm hv, _, _, _, h => .cons ⟨rfl, .giveBack hm hv⟩ (hv.listFrom h)
  | _, _, .field hm hp hv, _, _, _, h =>
    .cons ⟨rfl, .field hm hp hv⟩ (forall₂_optional hp (fun hn => (hv hn).listFrom h) h)
  | _, _, .method hm hb, _, _, _, h => .cons ⟨rfl, .method hm hb⟩ (Twins.listFromAll hb h)
  | _, _, .program hm hfs hms, _, _, _, h =>
    .cons ⟨rfl, .program hm hfs hms⟩ (Twins.listFromAll hfs (Twins.listFromAll hms h))

/-- The listings of lists of twins pair them node by node. -/
theorem Twins.listFromAll : ∀ {ns ns' : List Node}, List.Forall₂ (Twins M) ns ns' →
    ∀ {d : Nat} {r r' : List (Nat × Node)}, List.Forall₂ (Paired M) r r' →
    List.Forall₂ (Paired M) (listFrom.all d ns r) (listFrom.all d ns' r')
  | _, _, .nil, _, _, _, h => h
  | _, _, .cons hn hns, _, _, _, h => hn.listFrom (Twins.listFromAll hns h)

end

mutual

/-- Twins are related by whatever relates the entries of their listings. -/
theorem Twins.strengthen : ∀ {n n' : Node}, Twins M n n' →
    ∀ {d d' : Nat} {r r' : List (Nat × Node)},
    Covered M' (n.listFrom d r) (n'.listFrom d' r') → Twins M' n n' ∧ Covered M' r r'
  | _, _, .absent _, _, _, _, _, h => ⟨.absent h.head, h.tail⟩
  | _, _, .literal _, _, _, _, _, h => ⟨.literal h.head, h.tail⟩
  | _, _, .group _ he, _, _, _, _, h =>
    have he := he.strengthen h.tail
    ⟨.group h.head he.1, he.2⟩
  | _, _, .binary _ hl hr, _, _, _, _, h =>
    have hl := hl.strengthen h.tail
    have hr := hr.strengthen hl.2
    ⟨.binary h.head hl.1 hr.1, hr.2⟩
  | _, _, .access _ hp hr, _, _, _, _, h =>
    have hr := Covered.optional hp h.tail fun hn => (hr hn).strengthen
    ⟨.access h.head hp hr.1, hr.2⟩
  | _, _, .call _ hp hr hes, _, _, _, _, h =>
    have hr := Covered.optional hp h.tail fun hn => (hr hn).strengthen
    have hes := Twins.strengthenAll hes hr.2
    ⟨.call h.head hp hr.1 hes.1, hes.2⟩
  | _, _, .perform _ he, _, _, _, _, h =>
    have he := he.strengthen h.tail
    ⟨.perform h.head he.1, he.2⟩
  | _, _, .declare _ hp hv, _, _, _, _, h =>
    have hv := Covered.optional hp h.tail fun hn => (hv hn).strengthen
    ⟨.declare h.head hp hv.1, hv.2⟩
  | _, _, .assign _ hr hv, _, _, _, _, h =>
    have hr := hr.strengthen h.tail
    have hv := hv.strengthen hr.2
    ⟨.assign h.head hr.1 hv.1, hv.2⟩
  | _, _, .branch _ hc hb ho, _, _, _, _, h =>
    have hc := hc.strengthen h.tail
    have hb := Twins.strengthenAll hb hc.2
    have ho := Twins.strengthenAll ho hb.2
    ⟨.branch h.head hc.1 hb.1 ho.1, ho.2⟩
  | _, _, .forLoop _ hpf hf hpc hc hpl hl hb, _, _, _, _, h =>
    have hf := Covered.optional hpf h.tail fun hn => (hf hn).strengthen
    have hc := Covered.optional hpc hf.2 fun hn => (hc hn).strengthen
    have hl := Covered.optional hpl hc.2 fun hn => (hl hn).strengthen
    have hb := Twins.strengthenAll hb hl.2
    ⟨.forLoop h.head hpf hf.1 hpc hc.1 hpl hl.1 hb.1, hb.2⟩
  | _, _, .whileLoop _ hc hb, _, _, _, _, h =>
    have hc := hc.strengthen h.tail
    have hb := Twins.strengthenAll hb hc.2
    ⟨.whileLoop h.head hc.1 hb.1, hb.2⟩
  | _, _, .giveBack _ hv, _, _, _, _, h =>
    have hv := hv.strengthen h.tail
    ⟨.giveBack h.head hv.1, hv.2⟩
  | _, _, .field _ hp hv, _, _, _, _, h =>
    have hv := Covered.optional hp h.tail fun hn => (hv hn).strengthen
    ⟨.field h.head hp hv.1, hv.2⟩
  | _, _, .method _ hb, _, _, _, _, h =>
    have hb := Twins.strengthenAll hb h.tail
    ⟨.method h.head hb.1, hb.2⟩
  | _, _, .program _ hfs hms, _, _, _, _, h =>
    have hfs := Twins.strengthenAll hfs h.tail
    have hms := Twins.strengthenAll hms hfs.2
    ⟨.program h.head hfs.1 hms.1, hms.2⟩

/-- Lists of twins are related by whatever relates the entries of their listings. -/
theorem Twins.strengthenAll : ∀ {ns ns' : List Node}, List.Forall₂ (Twins M) ns ns' →
    ∀ {d d' : Nat} {r r' : List (Nat × Node)},
    Covered M' (listFrom.all d ns r) (listFrom.all d' ns' r') →
      List.Forall₂ (Twins M') ns ns' ∧ Covered M' r r'
  | _, _, .nil, _, _, _, _, h => ⟨.nil, h⟩
  | _, _, .cons hn hns, _, _, _, _, h =>
    have hn := hn.strengthen h
    have hns := Twins.strengthenAll hns hn.2
    ⟨.cons hn.1 hns.1, hns.2⟩

end

/-- Same trees are equally nested. -/
lemma nesting_of_same (h : n.same n' = true) : n'.nesting = n.nesting := by
  have hlisted : List.Forall₂ (Paired fun _ _ _ => True) n.preorder n'.preorder :=
    (Twins.of_same h).listFrom .nil
  unfold nesting
  generalize n.preorder = r at hlisted ⊢
  generalize n'.preorder = r' at hlisted ⊢
  generalize 0 = deepest
  induction hlisted generalizing deepest with
  | nil => rfl
  | cons he _ ih => rw [List.foldl_cons, List.foldl_cons, he.depth, ih]

/-! ### Numbering -/

/-- The marks have the same number, unless they are those of programs, whose numbers do not
count. -/
def SameNumber (kind : Option Kind) (m m' : Mark) : Prop :=
  kind = some .program ∨ m'.number = m.number

/-- What is numbered corresponds, and the next numbers are the same. -/
structure Aligned {α : Type} (R : α → α → Prop) (x x' : α × Nat) : Prop where
  parts : R x.1 x'.1
  next : x'.2 = x.2

/-- A part that may be omitted is numbered in both or in neither. -/
lemma Aligned.optional {k k' : Nat} (hk : k' = k) (hp : n'.isPresent = n.isPresent)
    (h : n.isPresent = true →
      Aligned (Twins SameNumber) (n.numberFrom k) (n'.numberFrom k')) :
    Aligned (fun n n' => n'.isPresent = n.isPresent ∧ (n.isPresent = true → Twins SameNumber n n'))
      (n.numberFrom k) (n'.numberFrom k') := by
  cases hpresent : n.isPresent with
  | true =>
    obtain ⟨htwins, hnext⟩ := h hpresent
    refine ⟨⟨?_, fun _ => htwins⟩, hnext⟩
    rw [isPresent_numberFrom, isPresent_numberFrom, hp]
  | false =>
    rw [hpresent] at hp
    rw [eq_absent_of_isPresent hpresent, eq_absent_of_isPresent hp]
    exact ⟨⟨rfl, nofun⟩, hk⟩

mutual

/-- Numbered from the same number on, twins have the same numbers. -/
theorem Twins.numberFrom : ∀ {n n' : Node}, Twins M n n' → ∀ {k k' : Nat}, k' = k →
    Aligned (Twins SameNumber) (n.numberFrom k) (n'.numberFrom k')
  | _, _, .absent _, _, _, hk => ⟨.absent (.inr rfl), hk⟩
  | _, _, .literal _, _, _, hk => ⟨.literal (.inr hk), congrArg (· + 1) hk⟩
  | _, _, .group _ he, _, _, hk =>
    have he := he.numberFrom (congrArg (· + 1) hk)
    ⟨.group (.inr hk) he.parts, he.next⟩
  | _, _, .binary _ hl hr, _, _, hk =>
    have hl := hl.numberFrom (congrArg (· + 1) hk)
    have hr := hr.numberFrom hl.next
    ⟨.binary (.inr hk) hl.parts hr.parts, hr.next⟩
  -- An absent part takes no number, so that what follows goes on from the same number either way.
  | _, _, .access _ hp hr, _, _, hk =>
    have hk' := congrArg (· + 1) hk
    have hr := Aligned.optional hk' hp fun hn => (hr hn).numberFrom hk'
    ⟨.access (.inr hk) hr.parts.1 hr.parts.2, hr.next⟩
  | _, _, .call _ hp hr hes, _, _, hk =>
    have hk' := congrArg (· + 1) hk
    have hr := Aligned.optional hk' hp fun hn => (hr hn).numberFrom hk'
    have hes := Twins.numberFromAll hes hr.next
    ⟨.call (.inr hk) hr.parts.1 hr.parts.2 hes.parts, hes.next⟩
  | _, _, .perform _ he, _, _, hk =>
    have he := he.numberFrom (congrArg (· + 1) hk)
    ⟨.perform (.inr hk) he.parts, he.next⟩
  | _, _, .declare _ hp hv, _, _, hk =>
    have hk' := congrArg (· + 1) hk
    have hv := Aligned.optional hk' hp fun hn => (hv hn).numberFrom hk'
    ⟨.declare (.inr hk) hv.parts.1 hv.parts.2, hv.next⟩
  | _, _, .assign _ hr hv, _, _, hk =>
    have hr := hr.numberFrom (congrArg (· + 1) hk)
    have hv := hv.numberFrom hr.next
    ⟨.assign (.inr hk) hr.parts hv.parts, hv.next⟩
  | _, _, .branch _ hc hb ho, _, _, hk =>
    have hc := hc.numberFrom (congrArg (· + 1) hk)
    have hb := Twins.numberFromAll hb hc.next
    have ho := Twins.numberFromAll ho hb.next
    ⟨.branch (.inr hk) hc.parts hb.parts ho.parts, ho.next⟩
  | _, _, .forLoop _ hpf hf hpc hc hpl hl hb, _, _, hk =>
    have hk' := congrArg (· + 1) hk
    have hf := Aligned.optional hk' hpf fun hn => (hf hn).numberFrom hk'
    have hc := Aligned.optional hf.next hpc fun hn => (hc hn).numberFrom hf.next
    have hl := Aligned.optional hc.next hpl fun hn => (hl hn).numberFrom hc.next
    have hb := Twins.numberFromAll hb hl.next
    ⟨.forLoop (.inr hk) hf.parts.1 hf.parts.2 hc.parts.1 hc.parts.2 hl.parts.1 hl.parts.2 hb.parts,
      hb.next⟩
  | _, _, .whileLoop _ hc hb, _, _, hk =>
    have hc := hc.numberFrom (congrArg (· + 1) hk)
    have hb := Twins.numberFromAll hb hc.next
    ⟨.whileLoop (.inr hk) hc.parts hb.parts, hb.next⟩
  | _, _, .giveBack _ hv, _, _, hk =>
    have hv := hv.numberFrom (congrArg (· + 1) hk)
    ⟨.giveBack (.inr hk) hv.parts, hv.next⟩
  | _, _, .field _ hp hv, _, _, hk =>
    have hk' := congrArg (· + 1) hk
    have hv := Aligned.optional hk' hp fun hn => (hv hn).numberFrom hk'
    ⟨.field (.inr hk) hv.parts.1 hv.parts.2, hv.next⟩
  | _, _, .method _ hb, _, _, hk =>
    have hb := Twins.numberFromAll hb (congrArg (· + 1) hk)
    ⟨.method (.inr hk) hb.parts, hb.next⟩
  | _, _, .program _ hfs hms, _, _, hk =>
    have hfs := Twins.numberFromAll hfs (congrArg (· + 1) hk)
    have hms := Twins.numberFromAll hms hfs.next
    ⟨.program (.inr hk) hfs.parts hms.parts, hms.next⟩

/-- Numbered one after the other from the same number on, twins have the same numbers. -/
theorem Twins.numberFromAll : ∀ {ns ns' : List Node}, List.Forall₂ (Twins M) ns ns' →
    ∀ {k k' : Nat}, k' = k →
    Aligned (List.Forall₂ (Twins SameNumber)) (numberFrom.all k ns) (numberFrom.all k' ns')
  | _, _, .nil, _, _, hk => ⟨.nil, hk⟩
  | _, _, .cons hn hns, _, _, hk =>
    have hn := hn.numberFrom hk
    have hns := Twins.numberFromAll hns hn.next
    ⟨.cons hn.parts hns.parts, hns.next⟩

end

end Node

/-! ### Programs -/

lemma Field.numberFrom_toNode (f : Field) (k : Nat) :
    f.toNode.numberFrom k = ((f.numberFrom k).1.toNode, (f.numberFrom k).2) :=
  rfl

lemma Method.numberFrom_toNode (m : Method) (k : Nat) :
    m.toNode.numberFrom k = ((m.numberFrom k).1.toNode, (m.numberFrom k).2) :=
  rfl

/-- Parts are numbered as the trees that they are. -/
lemma numberFrom_all_map {α : Type} {toNode : α → Node} {number : Nat → α → α × Nat}
    (h : ∀ a k, (toNode a).numberFrom k = (toNode (number k a).1, (number k a).2)) (as : List α)
    (k : Nat) : Node.numberFrom.all k (as.map toNode) =
      ((numberAll number k as).1.map toNode, (numberAll number k as).2) := by
  induction as generalizing k with
  | nil => rfl
  | cons a as ih => simp only [List.map_cons, Node.numberFrom.all, numberAll, h, ih]

/-- Programs that are the same have the same numbers when they are numbered. -/
theorem Program.twins_numbered {p q : Program} (h : p.toNode.same q.toNode = true) :
    Node.Twins Node.SameNumber p.numbered.toNode q.numbered.toNode := by
  cases Node.Twins.of_same h with
  | program _ hfs hms =>
    have hfields := Node.Twins.numberFromAll hfs (rfl : 1 = 1)
    have hmethods := Node.Twins.numberFromAll hms hfields.next
    simp only [numberFrom_all_map Field.numberFrom_toNode,
      numberFrom_all_map Method.numberFrom_toNode] at hfields hmethods
    exact .program (.inl rfl) hfields.parts hmethods.parts

end LetDef
