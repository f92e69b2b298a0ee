import LetDef.Proofs.Position.Move

/-!
# The nodes that analysis decorates

Analysis decorates literals, groups, operations, accesses, calls and declarations, each after its
parts. In a numbered tree their numbers are all different, so no node is decorated for another.
-/

namespace LetDef

namespace Node

/-- The numbers of the nodes that analysis decorates, in the order in which it does. -/
def slots : Node → List Nat
  | .literal m _ _ => [m.number]
  | .group m body => body.slots ++ [m.number]
  | .binary m _ left right => left.slots ++ right.slots ++ [m.number]
  | .access m receiver _ => receiver.slots ++ [m.number]
  | .call m receiver _ arguments => all arguments ++ receiver.slots ++ [m.number]
  | .perform _ expression => expression.slots
  | .declare m _ _ value => value.slots ++ [m.number]
  | .assign _ receiver value => receiver.slots ++ value.slots
  | .branch _ condition thenBody elseBody => condition.slots ++ all thenBody ++ all elseBody
  | .forLoop _ initializer condition increment body =>
    initializer.slots ++ condition.slots ++ increment.slots ++ all body
  | .whileLoop _ condition body => condition.slots ++ all body
  | .giveBack _ value => value.slots
  | _ => []
where
  /-- The numbers in several trees one after the other. -/
  all : List Node → List Nat
    | [] => []
    | n :: ns => n.slots ++ all ns

lemma slots_all (ns : List Node) : slots.all ns = ns.flatMap slots := by
  induction ns with
  | nil => rfl
  | cons n ns ih => rw [slots.all, ih, List.flatMap_cons]

end Node

/-- The numbers of the nodes of a field that analysis decorates, the field itself last. -/
def Field.slots (f : Field) : List Nat :=
  f.value.slots ++ [f.mark.number]

/-- The numbers of the nodes of a method that analysis decorates, the method itself first. -/
def Method.slots (m : Method) : List Nat :=
  m.mark.number :: m.body.flatMap Node.slots

/-- The numbers of the nodes of a program that analysis decorates. -/
def Program.slots (p : Program) : List Nat :=
  p.fields.flatMap Field.slots ++ p.methods.flatMap Method.slots

/-! ### Numbered trees -/

/-- Different numbers from `k` up to `next`. -/
structure Within (k next : Nat) (js : List Nat) : Prop where
  le : k ≤ next
  nodup : js.Nodup
  bounds : ∀ j ∈ js, k ≤ j ∧ j < next

namespace Within

variable {k next later : Nat} {js ls : List Nat}

lemma nil (k : Nat) : Within k k [] :=
  ⟨Nat.le_refl k, List.nodup_nil, by simp⟩

lemma append (h : Within k next js) (h' : Within next later ls) : Within k later (js ++ ls) where
  le := Nat.le_trans h.le h'.le
  nodup := by
    refine List.nodup_append.2 ⟨h.nodup, h'.nodup, fun i hi j hj => ?_⟩
    have := h.bounds i hi
    have := h'.bounds j hj
    omega
  bounds j hj := by
    rcases List.mem_append.1 hj with hj | hj
    · exact ⟨(h.bounds j hj).1, Nat.lt_of_lt_of_le (h.bounds j hj).2 h'.le⟩
    · exact ⟨Nat.le_trans h.le (h'.bounds j hj).1, (h'.bounds j hj).2⟩

lemma perm (h : Within k next js) (hp : js.Perm ls) : Within k next ls where
  le := h.le
  nodup := hp.nodup_iff.1 h.nodup
  bounds j hj := h.bounds j (hp.mem_iff.2 hj)

/-- The number before may be left out. -/
lemma skip (h : Within (k + 1) next js) : Within k next js where
  le := Nat.le_of_succ_le h.le
  nodup := h.nodup
  bounds j hj := ⟨Nat.le_of_succ_le (h.bounds j hj).1, (h.bounds j hj).2⟩

lemma cons (h : Within (k + 1) next js) : Within k next (k :: js) := by
  have hself : Within k (k + 1) [k] := ⟨Nat.le_succ k, by simp, by simp⟩
  exact hself.append h

lemma none (h : Within k next js) : Within k next [] :=
  ⟨h.le, List.nodup_nil, by simp⟩

lemma snoc (h : Within (k + 1) next js) : Within k next (js ++ [k]) :=
  h.cons.perm (List.perm_append_singleton k js).symm

end Within

namespace Node

/-- Trees that are numbered one after the other. -/
lemma within_all {ns : List Node}
    (h : ∀ n ∈ ns, ∀ k, Within k (n.numberFrom k).2 (n.numberFrom k).1.slots) (k : Nat) :
    Within k (numberFrom.all k ns).2 (slots.all (numberFrom.all k ns).1) := by
  induction ns generalizing k with
  | nil => exact .nil k
  | cons n ns ih =>
    rw [List.forall_mem_cons] at h
    exact (h.1 k).append (ih h.2 _)

/-- The nodes of a numbered tree that analysis decorates have different numbers of that tree. -/
lemma within_numberFrom (n : Node) (k : Nat) :
    Within k (n.numberFrom k).2 (n.numberFrom k).1.slots := by
  induction n using nestedInduction generalizing k with
  | absent => exact .nil k
  | literal m value sort => exact (Within.nil (k + 1)).cons
  | group m body ih => exact (ih _).snoc
  | binary m operator left right ihl ihr => exact ((ihl _).append (ihr _)).snoc
  | access m receiver name ih => exact (ih _).snoc
  | call m receiver name arguments ih ihs =>
    exact (((ih _).append (within_all ihs _)).perm List.perm_append_comm).snoc
  | perform m expression ih => exact (ih _).skip
  | declare m name typeName value ih => exact (ih _).snoc
  | assign m receiver value ihr ihv => exact ((ihr _).append (ihv _)).skip
  | branch m condition thenBody elseBody ihc iht ihe =>
    exact (((ihc _).append (within_all iht _)).append (within_all ihe _)).skip
  | forLoop m initializer condition increment body ihf ihc ihl ihb =>
    exact ((((ihf _).append (ihc _)).append (ihl _)).append (within_all ihb _)).skip
  | whileLoop m condition body ihc ihb => exact ((ihc _).append (within_all ihb _)).skip
  | giveBack m value ih => exact (ih _).skip
  | field m name typeName constant value ih => exact (ih _).skip.none
  | method m name parameters parameterTypes returnType body ihb =>
    exact (within_all ihb _).skip.none
  | program m fields methods ihf ihm =>
    exact ((within_all ihf _).append (within_all ihm _)).skip.none

end Node

lemma Field.within_numberFrom (f : Field) (k : Nat) :
    Within k (f.numberFrom k).2 (f.numberFrom k).1.slots :=
  (f.value.within_numberFrom (k + 1)).snoc

lemma Method.within_numberFrom (m : Method) (k : Nat) :
    Within k (m.numberFrom k).2 (m.numberFrom k).1.slots := by
  have hbody : Within (k + 1) _ (Node.slots.all (Node.numberFrom.all (k + 1) m.body).1) :=
    Node.within_all (fun n _ => n.within_numberFrom) (k + 1)
  rw [Node.slots_all] at hbody
  exact hbody.cons

/-- Parts that are numbered one after the other. -/
lemma within_numberAll {α : Type} {number : Nat → α → α × Nat} {slots : α → List Nat}
    (h : ∀ a k, Within k (number k a).2 (slots (number k a).1)) (k : Nat) (as : List α) :
    Within k (numberAll number k as).2 ((numberAll number k as).1.flatMap slots) := by
  induction as generalizing k with
  | nil => exact .nil k
  | cons a as ih => exact (h a k).append (ih _)

/-- In a numbered program no two nodes that analysis decorates have the same number. -/
theorem Program.nodup_slots_numbered (p : Program) : p.numbered.slots.Nodup :=
  ((within_numberAll Field.within_numberFrom 1 p.fields).append
    (within_numberAll Method.within_numberFrom _ p.methods)).nodup

end LetDef
