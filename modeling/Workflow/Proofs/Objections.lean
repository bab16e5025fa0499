import Workflow.Proofs.Visibility

/-!
# Objections to activities

An activity tree is well formed if no body objects to itself, if the names of one activity are
distinct, if arguments below the root are bound to what they can be bound to, and if no bookmark is
declared twice. Preparing a tree finds exactly the objections that this leaves, each at the activity
that it concerns.
-/

namespace Workflow

/-! ### Activities where they stand -/

namespace Activity

/-- The display name of an activity. -/
def name : Activity → String
  | mk name _ _ _ _ => name

/-- The body of an activity. -/
def body : Activity → Body
  | mk _ body _ _ _ => body

/-- The declared children of an activity. -/
def children : Activity → List Activity
  | mk _ _ children _ _ => children

/-- The variables of an activity. -/
def locals : Activity → List Variable
  | mk _ _ _ locals _ => locals

/-- The arguments of an activity. -/
def arguments : Activity → List Argument
  | mk _ _ _ _ arguments => arguments

/-- The names of the variables and arguments of an activity. -/
def declared (a : Activity) : List String :=
  declaredNames a.locals a.arguments

end Activity

/-- An activity where it stands in a tree. -/
structure Occurrence where
  /-- The path of the activity. -/
  path : String
  /-- The activities above it, the root first. -/
  above : List Activity
  /-- The activity itself. -/
  activity : Activity

namespace Activity

mutual

/-- The activities of a tree in pre-order, below some others. -/
def occurrencesAt (path : String) (above : List Activity) : Activity → List Occurrence
  | mk name body children locals arguments =>
    ⟨path, above, mk name body children locals arguments⟩ ::
      occurrencesBelow path 1 (above ++ [mk name body children locals arguments]) children

/-- The activities of the trees below one activity, the first of them at a position. -/
def occurrencesBelow (path : String) (position : Nat) (above : List Activity) :
    List Activity → List Occurrence
  | [] => []
  | a :: rest =>
    a.occurrencesAt (path ++ "." ++ toString position) above ++
      occurrencesBelow path (position + 1) above rest

end

/-- The activities of a tree in pre-order. -/
def occurrences (a : Activity) : List Occurrence :=
  a.occurrencesAt "1" []

end Activity

namespace Occurrence

variable (o : Occurrence)

/-- Where the body of the activity finds itself. -/
def site : Site :=
  ⟨o.path, o.activity.name, o.activity.children.length⟩

/-- What the body of the activity has to say. -/
def remarks : List Remark :=
  o.activity.body.remarks o.site

/-- The bookmarks that the body of the activity declares. -/
def bookmarks : List String :=
  Activity.declaredBookmarks o.remarks

/-- The declarations of bookmarks, each with the path of the activity. -/
def declarations : List (String × String) :=
  o.bookmarks.map fun name => (name, o.path)

/-- An argument below the root that has a binding which it cannot have, or none where it needs one. -/
inductive Misbinds (b : Argument) : Prop
  /-- A required value that flows in comes from nowhere. -/
  | unbound (h : b.binding = .unbound) (hr : b.required = true) (hd : b.direction.isInput = true)
  /-- A value that flows out has nowhere to go. -/
  | literal (v : Value) (h : b.binding = .literal v) (hd : b.direction.isOutput = true)
  /-- No activity above declares the name. -/
  | hidden (name : String) (h : b.binding = .location name)
      (hn : ∀ a ∈ o.above, name ∉ a.declared)

/-- What there is to object to an activity, after those that come before it, and how it is said. -/
inductive Objection (before : List Occurrence) : String → Prop
  /-- The body objects. -/
  | stated (text : String) (h : .error text ∈ o.remarks) : Objection before text
  /-- A variable has the name of one before. -/
  | repeated (l r : List Variable) (v : Variable) (h : o.activity.locals = l ++ v :: r)
      (hv : v.name ∈ l.map (·.name)) :
      Objection before ("variable '" ++ v.name ++ "' is declared more than once")
  /-- An argument has the name of a variable or of an argument before. -/
  | colliding (l r : List Argument) (b : Argument) (h : o.activity.arguments = l ++ b :: r)
      (hb : b.name ∈ o.activity.locals.map (·.name) ∨ b.name ∈ l.map (·.name)) :
      Objection before ("argument '" ++ b.name ++ "' collides with another variable or argument")
  /-- A required argument has no binding. -/
  | unbound (b : Argument) (hb : b ∈ o.activity.arguments) (ha : o.above ≠ [])
      (h : b.binding = .unbound) (hr : b.required = true) (hd : b.direction.isInput = true) :
      Objection before ("required argument '" ++ b.name ++ "' has no binding")
  /-- An argument that flows out is bound to a literal. -/
  | literal (b : Argument) (v : Value) (hb : b ∈ o.activity.arguments) (ha : o.above ≠ [])
      (h : b.binding = .literal v) (hd : b.direction.isOutput = true) :
      Objection before ("argument '" ++ b.name ++ "' flows out and cannot bind to a literal")
  /-- An argument is bound to a name that no activity above declares. -/
  | hidden (b : Argument) (name : String) (hb : b ∈ o.activity.arguments) (ha : o.above ≠ [])
      (h : b.binding = .location name) (hn : ∀ a ∈ o.above, name ∉ a.declared) :
      Objection before
        ("argument '" ++ b.name ++ "' binds to '" ++ name ++ "', which is not visible here")
  /-- A bookmark was declared before, by the activity itself or by one before it. -/
  | bookmark (l r : List String) (name first : String) (h : o.bookmarks = l ++ name :: r)
      (hf : (before.flatMap declarations ++ l.map fun n => (n, o.path)).find? (·.1 == name) =
        some (name, first)) :
      Objection before ("bookmark '" ++ name ++ "' is already declared by activity " ++ first)

/-- An activity offends: its body objects, a name stands for two things, an argument is not bound as it
must be, or a bookmark was declared before. -/
inductive Offends (before : List Occurrence) : Prop
  | stated (text : String) (h : .error text ∈ o.remarks)
  | names (h : ¬ o.activity.declared.Nodup)
  | argument (b : Argument) (hb : b ∈ o.activity.arguments) (ha : o.above ≠ []) (h : o.Misbinds b)
  | again (h : ¬ o.bookmarks.Nodup)
  | bookmark (name : String) (p : Occurrence) (hp : p ∈ before) (hn : name ∈ p.bookmarks)
      (h : name ∈ o.bookmarks)

end Occurrence

/-- A tree to which there is nothing to object. -/
structure Activity.WellFormed (a : Activity) : Prop where
  /-- No body objects. -/
  stated : ∀ o ∈ a.occurrences, ∀ text, .error text ∉ o.remarks
  /-- The variables and arguments of an activity have names of their own. -/
  distinct : ∀ o ∈ a.occurrences, o.activity.declared.Nodup
  /-- Below the root, arguments are bound as they must be. -/
  bound : ∀ o ∈ a.occurrences, o.above ≠ [] → ∀ b ∈ o.activity.arguments, ¬ o.Misbinds b
  /-- A bookmark is declared once in the tree. -/
  single : (a.occurrences.flatMap (·.bookmarks)).Nodup

/-! ### What is found at one activity -/

/-- An error at a site. -/
def Site.error (site : Site) (message : String) : Finding :=
  ⟨site.path, site.name, message, .error⟩

/-- A list that begins with an item is split at the item or later. -/
theorem exists_split_cons {α : Type} (a : α) (rest : List α) (P : List α → α → Prop) :
    (∃ l b r, a :: rest = l ++ b :: r ∧ P l b) ↔
      P [] a ∨ ∃ l b r, rest = l ++ b :: r ∧ P (a :: l) b := by
  constructor
  · rintro ⟨l, b, r, h, hp⟩
    cases l with
    | nil =>
      cases h
      exact .inl hp
    | cons c l =>
      cases h
      exact .inr ⟨l, b, r, rfl, hp⟩
  · rintro (hp | ⟨l, b, r, rfl, hp⟩)
    · exact ⟨[], a, rest, rfl, hp⟩
    · exact ⟨a :: l, b, r, rfl, hp⟩

/-- Nothing splits the empty list. -/
theorem not_exists_split_nil {α : Type} {P : List α → α → Prop} :
    ¬ ∃ l b r, ([] : List α) = l ++ b :: r ∧ P l b := by
  rintro ⟨l, b, r, h, -⟩
  exact absurd h.symm (by simp)

namespace Activity

variable {site : Site} {taken visible : List String} {arguments : List Argument}
variable {locals : List Variable} {f : Finding}

theorem mem_statedFindings_error {remarks : List Remark} :
    f ∈ statedFindings site remarks ∧ f.isError = true ↔
      ∃ text, .error text ∈ remarks ∧ f = site.error text := by
  rw [statedFindings, List.mem_filterMap]
  constructor
  · rintro ⟨⟨remark, hr, hf⟩, he⟩
    cases remark with
    | error text => exact ⟨text, hr, (Option.some.inj hf).symm⟩
    | warning text =>
      cases hf
      exact absurd he Bool.false_ne_true
    | bookmark name => cases hf
  · rintro ⟨text, hr, rfl⟩
    exact ⟨⟨.error text, hr, rfl⟩, rfl⟩

/-- Of the arguments those are found whose names are taken or stand before. -/
theorem mem_argumentFindings : f ∈ argumentFindings site taken arguments ↔
    ∃ l b r, arguments = l ++ b :: r ∧ (b.name ∈ taken ∨ b.name ∈ l.map (·.name)) ∧
      f = site.error ("argument '" ++ b.name ++ "' collides with another variable or argument") := by
  induction arguments generalizing taken with
  | nil => exact iff_of_false List.not_mem_nil not_exists_split_nil
  | cons a rest ih =>
    rw [argumentFindings, exists_split_cons a rest fun l b =>
      (b.name ∈ taken ∨ b.name ∈ l.map (·.name)) ∧ f = site.error
      ("argument '" ++ b.name ++ "' collides with another variable or argument")]
    have later := @ih (a.name :: taken)
    have same : ∀ (l : List Argument) (b : Argument),
        (b.name ∈ a.name :: taken ∨ b.name ∈ l.map (·.name)) ↔
        (b.name ∈ taken ∨ b.name ∈ (a :: l).map (·.name)) := by
      intro l b
      rw [List.mem_cons, List.map_cons, List.mem_cons]
      tauto
    simp only [same] at later
    split
    · next h => rw [List.mem_cons, later]; simp [h, Site.error]
    · next h => rw [later]; simp [h]

/-- Of the variables those are found whose names are taken or stand before, and of the arguments those
whose names are taken, are names of variables, or stand before. -/
theorem mem_locationFindings : f ∈ locationFindings site arguments taken locals ↔
    (∃ l v r, locals = l ++ v :: r ∧ (v.name ∈ taken ∨ v.name ∈ l.map (·.name)) ∧
      f = site.error ("variable '" ++ v.name ++ "' is declared more than once")) ∨
    ∃ l b r, arguments = l ++ b :: r ∧
      ((b.name ∈ taken ∨ b.name ∈ locals.map (·.name)) ∨ b.name ∈ l.map (·.name)) ∧
      f = site.error ("argument '" ++ b.name ++ "' collides with another variable or argument") := by
  induction locals generalizing taken with
  | nil =>
    rw [locationFindings, mem_argumentFindings, or_iff_right not_exists_split_nil]
    simp
  | cons v rest ih =>
    rw [locationFindings, exists_split_cons v rest fun l v =>
      (v.name ∈ taken ∨ v.name ∈ l.map (·.name)) ∧ f = site.error
      ("variable '" ++ v.name ++ "' is declared more than once")]
    have later := @ih (v.name :: taken)
    have same : ∀ (l : List Variable) (name : String),
        (name ∈ v.name :: taken ∨ name ∈ l.map (·.name)) ↔
        (name ∈ taken ∨ name ∈ (v :: l).map (·.name)) := by
      intro l name
      rw [List.mem_cons, List.map_cons, List.mem_cons]
      tauto
    simp only [same] at later
    split
    · next h => rw [List.mem_cons, later]; simp [h, Site.error, or_assoc]
    · next h => rw [later]; simp [h]

theorem mem_bindingFindings : f ∈ bindingFindings site visible arguments ↔
    ∃ b ∈ arguments, ∃ message, bindingProblem? visible b = some message ∧ f = site.error message := by
  rw [bindingFindings, List.mem_map]
  constructor
  · rintro ⟨message, hm, rfl⟩
    obtain ⟨b, hb, hp⟩ := List.mem_filterMap.mp hm
    exact ⟨b, hb, message, hp, rfl⟩
  · rintro ⟨b, hb, message, hp, rfl⟩
    exact ⟨message, List.mem_filterMap.mpr ⟨b, hb, hp⟩, rfl⟩

/-! ### Bookmarks that are declared again -/

/-- Two lists of declarations in which every name was declared first at the same path. -/
def SameFirst (seen all : List (String × String)) : Prop :=
  ∀ name, seen.find? (·.1 == name) = all.find? (·.1 == name)

variable {seen all : List (String × String)} {names : List String}

/-- What is declared last matters only if its name is new. -/
theorem SameFirst.snoc (h : SameFirst seen all) (name path : String) :
    SameFirst (if (seen.find? (·.1 == name)).isSome then seen else seen ++ [(name, path)])
      (all ++ [(name, path)]) := by
  intro other
  rw [List.find?_append, ← h]
  split
  · next known =>
    by_cases ho : name = other
    · obtain ⟨entry, he⟩ := Option.isSome_iff_exists.mp known
      rw [← ho, he, Option.some_or]
    · rw [List.find?_cons_of_neg (by simpa using ho), List.find?_nil, Option.or_none]
  · rw [List.find?_append]

/-- The bookmarks are found that were declared before, and all declarations are kept in mind. -/
theorem bookmarkFindings_spec (site : Site) (names : List String) (h : SameFirst seen all) :
    (∀ f, f ∈ (bookmarkFindings site seen names).1 ↔ ∃ l name r, names = l ++ name :: r ∧
      ∃ first, (all ++ l.map fun n => (n, site.path)).find? (·.1 == name) = some (name, first) ∧
        f = site.error ("bookmark '" ++ name ++ "' is already declared by activity " ++ first)) ∧
      SameFirst (bookmarkFindings site seen names).2 (all ++ names.map fun n => (n, site.path)) := by
  induction names generalizing seen all with
  | nil =>
    refine ⟨fun _ => iff_of_false List.not_mem_nil not_exists_split_nil, ?_⟩
    rw [List.map_nil, List.append_nil]
    exact h
  | cons name rest ih =>
    obtain ⟨found, same⟩ := ih (h.snoc name site.path)
    rw [List.append_assoc] at same
    simp only [List.append_assoc] at found
    have split := fun f => exists_split_cons name rest fun l name =>
      ∃ first, (all ++ l.map fun n => (n, site.path)).find? (·.1 == name) = some (name, first) ∧
        f = site.error ("bookmark '" ++ name ++ "' is already declared by activity " ++ first)
    unfold bookmarkFindings
    cases hf : seen.find? (·.1 == name) with
    | none =>
      rw [hf] at found same
      refine ⟨fun f => ((found f).trans (or_iff_right ?_).symm).trans (split f).symm, same⟩
      rintro ⟨first, hfirst, -⟩
      rw [List.map_nil, List.append_nil, ← h, hf] at hfirst
      cases hfirst
    | some entry =>
      obtain ⟨other, first⟩ := entry
      obtain rfl : other = name := by simpa using List.find?_some hf
      rw [hf] at found same
      refine ⟨fun f => List.mem_cons.trans ((or_congr ?_ (found f)).trans (split f).symm), same⟩
      rw [List.map_nil, List.append_nil, ← h, hf]
      constructor
      · rintro rfl
        exact ⟨first, rfl, rfl⟩
      · rintro ⟨first', hfirst, rfl⟩
        cases hfirst
        rfl

end Activity

/-! ### What is found in a tree -/

namespace Occurrence

/-- What is found of an activity by itself. -/
def findings (o : Occurrence) : List Finding :=
  Activity.statedFindings o.site o.remarks ++
    Activity.locationFindings o.site o.activity.arguments [] o.activity.locals ++
    if o.above.isEmpty then []
    else Activity.bindingFindings o.site (o.above.flatMap (·.declared)) o.activity.arguments

/-- What the node of an activity has from it. -/
structure Stands (o : Occurrence) (n : Node) : Prop where
  path : n.path = o.path
  name : n.name = o.activity.name
  bookmarks : n.bookmarks = o.bookmarks
  findings : n.findings = ⟨o.findings⟩

end Occurrence

namespace Activity

mutual

/-- The nodes of a tree stand for its activities, in pre-order. -/
theorem occurrencesAt_stand (parent : Option NodeId) (id : Nat) (path : String)
    (above : List Activity) (hp : parent.isSome = !above.isEmpty) :
    (a : Activity) → List.Forall₂ Occurrence.Stands (a.occurrencesAt path above)
      (a.nodes parent id path (above.flatMap (·.declared)))
  | mk name body children locals arguments => by
    have below := occurrencesBelow_stand ⟨id⟩ (id + 1) path 1
      (above ++ [mk name body children locals arguments]) (by simp) children
    rw [List.flatMap_append, List.flatMap_singleton] at below
    rw [occurrencesAt, nodes]
    refine .cons ⟨rfl, rfl, rfl, congrArg Findings.mk (congrArg _ ?_)⟩ below
    rw [hp]
    cases above <;> rfl

/-- The nodes of the trees below one activity stand for their activities, in pre-order. -/
theorem occurrencesBelow_stand (parent : NodeId) (next : Nat) (path : String) (position : Nat)
    (above : List Activity) (ha : above.isEmpty = false) :
    (l : List Activity) → List.Forall₂ Occurrence.Stands (occurrencesBelow path position above l)
      (forest parent next path position (above.flatMap (·.declared)) l)
  | [] => .nil
  | a :: rest => by
    rw [occurrencesBelow, forest]
    refine List.rel_append (occurrencesAt_stand (some parent) next _ above ?_ a)
      (occurrencesBelow_stand parent _ path _ above ha rest)
    rw [ha]
    rfl

end

end Activity

namespace Occurrence

variable {o : Occurrence} {before : List Occurrence} {f : Finding} {message : String}

/-- What is found of the names of an activity are objections to it. -/
theorem objection_of_locationFinding
    (hf : f ∈ Activity.locationFindings o.site o.activity.arguments [] o.activity.locals) :
    ∃ message, o.Objection before message ∧ f = o.site.error message := by
  rcases Activity.mem_locationFindings.mp hf with ⟨l, v, r, h, hv, rfl⟩ | ⟨l, b, r, h, hb, rfl⟩
  · exact ⟨_, .repeated l r v h (hv.resolve_left List.not_mem_nil), rfl⟩
  · exact ⟨_, .colliding l r b h (hb.imp_left fun hb => hb.resolve_left List.not_mem_nil), rfl⟩

/-- What is found of the bindings of an activity are its objectionable arguments. -/
theorem objection_of_bindingProblem {b : Argument} (hb : b ∈ o.activity.arguments)
    (ha : o.above ≠ [])
    (h : Activity.bindingProblem? (o.above.flatMap (·.declared)) b = some message) :
    o.Objection before message := by
  unfold Activity.bindingProblem? at h
  split at h
  · next unbound =>
    split at h
    · next required =>
      cases h
      rw [Bool.and_eq_true] at required
      exact .unbound b hb ha unbound required.1 required.2
    · cases h
  · next v literal =>
    split at h
    · next flows =>
      cases h
      exact .literal b v hb ha literal flows
    · cases h
  · next name location =>
    split at h
    · cases h
    · next hidden =>
      cases h
      refine .hidden b name hb ha location fun a hm hn => hidden ?_
      exact List.mem_flatMap.mpr ⟨a, hm, hn⟩

/-- What is found of an activity, by itself and of its bookmarks, is what there is to object to it. -/
theorem mem_findings_iff {again : List Finding}
    (ha : ∀ f, f ∈ again ↔ ∃ l name r, o.bookmarks = l ++ name :: r ∧ ∃ first,
      (before.flatMap declarations ++ l.map fun n => (n, o.path)).find? (·.1 == name) =
        some (name, first) ∧
      f = o.site.error ("bookmark '" ++ name ++ "' is already declared by activity " ++ first)) :
    f ∈ o.findings ++ again ∧ f.isError = true ↔
      ∃ message, o.Objection before message ∧ f = o.site.error message := by
  rw [findings, List.mem_append, List.mem_append, List.mem_append]
  constructor
  · rintro ⟨((hf | hf) | hf) | hf, he⟩
    · obtain ⟨text, hr, rfl⟩ := Activity.mem_statedFindings_error.mp ⟨hf, he⟩
      exact ⟨text, .stated text hr, rfl⟩
    · exact objection_of_locationFinding hf
    · split at hf
      · exact absurd hf List.not_mem_nil
      · next below =>
        rw [List.isEmpty_iff] at below
        obtain ⟨b, hb, message, hp, rfl⟩ := Activity.mem_bindingFindings.mp hf
        exact ⟨message, objection_of_bindingProblem hb below hp, rfl⟩
    · obtain ⟨l, name, r, h, first, hfirst, rfl⟩ := (ha f).mp hf
      exact ⟨_, .bookmark l r name first h hfirst, rfl⟩
  · rintro ⟨message, h, rfl⟩
    refine ⟨?_, rfl⟩
    have bound : ∀ {b : Argument}, b ∈ o.activity.arguments → o.above ≠ [] →
        Activity.bindingProblem? (o.above.flatMap (·.declared)) b = some message →
        o.site.error message ∈ (if o.above.isEmpty then []
          else Activity.bindingFindings o.site (o.above.flatMap (·.declared)) o.activity.arguments) := by
      intro b hb below hp
      rw [if_neg (by rwa [List.isEmpty_iff])]
      exact Activity.mem_bindingFindings.mpr ⟨b, hb, message, hp, rfl⟩
    cases h with
    | stated _ h => exact .inl (.inl (.inl (Activity.mem_statedFindings_error.mpr ⟨_, h, rfl⟩).1))
    | repeated l r v h hv =>
      exact .inl (.inl (.inr (Activity.mem_locationFindings.mpr (.inl ⟨l, v, r, h, .inr hv, rfl⟩))))
    | colliding l r b h hb =>
      exact .inl (.inl (.inr (Activity.mem_locationFindings.mpr
        (.inr ⟨l, b, r, h, hb.imp_left .inr, rfl⟩))))
    | unbound b hb below h hr hd =>
      refine .inl (.inr (bound hb below ?_))
      rw [Activity.bindingProblem?, h]
      exact if_pos (by rw [hr, hd]; rfl)
    | literal b v hb below h hd =>
      refine .inl (.inr (bound hb below ?_))
      rw [Activity.bindingProblem?, h]
      exact if_pos hd
    | hidden b name hb below h hn =>
      refine .inl (.inr (bound hb below ?_))
      rw [Activity.bindingProblem?, h]
      refine if_neg fun hm => ?_
      obtain ⟨a, ha, hm⟩ := List.mem_flatMap.mp hm
      exact hn a ha hm
    | bookmark l r name first h hf => exact .inr ((ha _).mpr ⟨l, name, r, h, first, hf, rfl⟩)

/-- A list in which nothing stands before itself has nothing twice. -/
theorem nodup_of_split {l : List String} (h : ∀ l' x r, l = l' ++ x :: r → x ∉ l') : l.Nodup := by
  induction l with
  | nil => exact .nil
  | cons a rest ih =>
    refine List.nodup_cons.mpr ⟨fun ha => ?_, ih fun l' x r hl hx => ?_⟩
    · obtain ⟨l', r, hl⟩ := List.append_of_mem ha
      exact h (a :: l') a r (congrArg _ hl) List.mem_cons_self
    · exact h (a :: l') x r (congrArg _ hl) (List.mem_cons_of_mem a hx)

/-- The first declaration of a name is found wherever it was declared before. -/
theorem exists_first (all : List (String × String)) {name path : String} (h : (name, path) ∈ all) :
    ∃ first, all.find? (·.1 == name) = some (name, first) := by
  have found : (all.find? (·.1 == name)).isSome = true :=
    List.find?_isSome.mpr ⟨(name, path), h, beq_self_eq_true name⟩
  obtain ⟨⟨other, first⟩, hf⟩ := Option.isSome_iff_exists.mp found
  obtain rfl : other = name := by simpa using List.find?_some hf
  exact ⟨first, hf⟩

/-- There is something to object exactly to an activity that offends. -/
theorem offends_iff : o.Offends before ↔ ∃ message, o.Objection before message := by
  constructor
  · rintro (⟨text, h⟩ | h | ⟨b, hb, ha, h⟩ | h | ⟨name, p, hp, hn, h⟩)
    · exact ⟨text, .stated text h⟩
    · by_contra none
      suffices nothing : Activity.locationFindings o.site o.activity.arguments [] o.activity.locals = [] from
        h (Activity.nodup_of_locationFindings nothing).1
      refine List.eq_nil_iff_forall_not_mem.mpr fun f hf => none ?_
      obtain ⟨message, objection, -⟩ := objection_of_locationFinding hf
      exact ⟨message, objection⟩
    · cases h with
      | unbound h hr hd => exact ⟨_, .unbound b hb ha h hr hd⟩
      | literal v h hd => exact ⟨_, .literal b v hb ha h hd⟩
      | hidden name h hn => exact ⟨_, .hidden b name hb ha h hn⟩
    · by_contra none
      refine h (nodup_of_split fun l name r h hn => none ?_)
      obtain ⟨first, hf⟩ := exists_first (before.flatMap declarations ++ l.map fun n => (n, o.path))
        (List.mem_append_right _ (List.mem_map_of_mem hn))
      exact ⟨_, .bookmark l r name first h hf⟩
    · obtain ⟨l, r, h⟩ := List.append_of_mem h
      obtain ⟨first, hf⟩ := exists_first (before.flatMap declarations ++ l.map fun n => (n, o.path))
        (List.mem_append_left _ (List.mem_flatMap.mpr ⟨p, hp, List.mem_map_of_mem hn⟩))
      exact ⟨_, .bookmark l r name first h hf⟩
  · rintro ⟨message, h⟩
    have twice : ∀ {l r : List String} {name : String}, name ∈ l → (l ++ name :: r).Nodup → False :=
      fun hn hd => (List.nodup_append.mp hd).2.2 _ hn _ List.mem_cons_self rfl
    cases h with
    | stated _ h => exact .stated _ h
    | repeated l r v h hv =>
      refine .names fun hd => ?_
      have hd : (o.activity.locals.map (·.name)).Nodup := hd.of_append_left
      rw [h, List.map_append, List.map_cons] at hd
      exact twice hv hd
    | colliding l r b h hb =>
      refine .names fun hd => ?_
      rw [Activity.declared, Activity.declaredNames, h, List.map_append, List.map_cons,
        ← List.append_assoc] at hd
      exact twice (List.mem_append.mpr hb) hd
    | unbound b hb ha h hr hd => exact .argument b hb ha (.unbound h hr hd)
    | literal b v hb ha h hd => exact .argument b hb ha (.literal v h hd)
    | hidden b name hb ha h hn => exact .argument b hb ha (.hidden name h hn)
    | bookmark l r name first h hf =>
      rcases List.mem_append.mp (List.mem_of_find?_eq_some hf) with hm | hm
      · obtain ⟨p, hp, hm⟩ := List.mem_flatMap.mp hm
        obtain ⟨n, hn, he⟩ := List.mem_map.mp hm
        cases he
        exact .bookmark name p hp hn (h ▸ List.mem_append_right _ List.mem_cons_self)
      · obtain ⟨n, hn, he⟩ := List.mem_map.mp hm
        cases he
        refine .again fun hd => ?_
        rw [h] at hd
        exact twice hn hd

/-- A node whose errors are the objections to an activity. -/
structure Judged (o : Occurrence) (before : List Occurrence) (n : Node) : Prop where
  path : n.path = o.path
  name : n.name = o.activity.name
  /-- Each error concerns the activity and is an objection to it, and each objection is an error. -/
  errors : ∀ f, f ∈ n.findings.errors ↔ ∃ message, o.Objection before message ∧
    f = ⟨o.path, o.activity.name, message, .error⟩

/-- A node is valid unless its activity offends. -/
theorem Judged.isValid_iff {n : Node} (h : o.Judged before n) :
    n.isValid = true ↔ ¬ o.Offends before := by
  rw [offends_iff, Node.isValid, Bool.not_eq_true', Findings.hasErrors, ← Bool.not_eq_true,
    List.any_eq_true, not_iff_not]
  constructor
  · rintro ⟨f, hf, he⟩
    obtain ⟨message, hm, -⟩ := (h.errors f).mp (List.mem_filter.mpr ⟨hf, he⟩)
    exact ⟨message, hm⟩
  · rintro ⟨message, hm⟩
    obtain ⟨hf, he⟩ := List.mem_filter.mp ((h.errors _).mpr ⟨message, hm, rfl⟩)
    exact ⟨_, hf, he⟩

/-- When the bookmarks have been checked, every node is judged after those before it. -/
theorem judged_checkAllBookmarks {os : List Occurrence} {ns : List Node}
    (hs : List.Forall₂ Stands os ns) {seen : List (String × String)}
    (h : Activity.SameFirst seen (before.flatMap declarations)) :
    (Activity.checkAllBookmarks seen ns).length = os.length ∧
      ∀ (k : Nat) (o : Occurrence) (n : Node), os[k]? = some o →
        (Activity.checkAllBookmarks seen ns)[k]? = some n → o.Judged (before ++ os.take k) n := by
  induction hs generalizing before seen with
  | nil => exact ⟨rfl, fun k o n hk => by cases hk⟩
  | @cons o n os ns stands _ ih =>
    obtain ⟨found, same⟩ := Activity.bookmarkFindings_spec ⟨n.path, n.name, n.children.length⟩
      n.bookmarks h
    rw [stands.bookmarks, stands.path, stands.name] at found same
    have next : Activity.SameFirst (Activity.checkBookmarks seen n).2
        ((before ++ [o]).flatMap declarations) := by
      rw [List.flatMap_append, List.flatMap_singleton, Activity.checkBookmarks, stands.bookmarks,
        stands.path, stands.name]
      exact same
    obtain ⟨length, later⟩ := ih next
    rw [Activity.checkAllBookmarks]
    refine ⟨congrArg (· + 1) length, fun k p m hp hm => ?_⟩
    cases k with
    | zero =>
      cases hp
      cases hm
      rw [List.take_zero, List.append_nil]
      refine ⟨stands.path, stands.name, fun f => ?_⟩
      rw [Findings.errors, List.mem_filter, stands.findings, stands.bookmarks, stands.path, stands.name]
      exact mem_findings_iff found
    | succ k =>
      have judged := later k p m hp hm
      rw [List.append_assoc] at judged
      exact judged

end Occurrence

/-- A definition is valid if its nodes are. -/
theorem Definition.ensureValid_iff (d : Definition) :
    d.ensureValid = .ok () ↔ ∀ n ∈ d.nodes, n.isValid = true := by
  have clean : d.findings.hasErrors = false ↔ ∀ n ∈ d.nodes, n.isValid = true := by
    simp only [findings, Findings.hasErrors, Node.isValid, List.any_flatMap, List.any_eq_false,
      Bool.not_eq_true', Bool.not_eq_true]
  rw [← clean, ensureValid]
  cases d.findings.hasErrors with
  | false => exact iff_of_true rfl rfl
  | true =>
    refine iff_of_false (fun valid => ?_) Bool.noConfusion
    cases valid

namespace Activity

variable {a : Activity}

/-- A tree is well formed if no activity offends after those before it. -/
theorem wellFormed_iff : a.WellFormed ↔
    ∀ (k : Nat) (o : Occurrence), a.occurrences[k]? = some o → ¬ o.Offends (a.occurrences.take k) := by
  constructor
  · intro h k o ho offends
    have hm : o ∈ a.occurrences := List.mem_of_getElem? ho
    obtain ⟨own, apart⟩ := List.nodup_flatMap.mp h.single
    cases offends with
    | stated text hr => exact h.stated o hm text hr
    | names hn => exact hn (h.distinct o hm)
    | argument b hb ha hp => exact h.bound o hm ha b hb hp
    | again hd => exact hd (own o hm)
    | bookmark name p hp hn hr =>
      obtain ⟨j, hj, rfl⟩ := List.mem_take_iff_getElem.mp hp
      obtain ⟨hk, rfl⟩ := List.getElem?_eq_some_iff.mp ho
      exact List.pairwise_iff_getElem.mp apart j k _ hk (by omega) hn hr
  · intro h
    have innocent : ∀ o ∈ a.occurrences, ∃ k : Nat, ¬ o.Offends (a.occurrences.take k) := by
      intro o hm
      obtain ⟨k, hk⟩ := List.getElem?_of_mem hm
      exact ⟨k, h k o hk⟩
    refine ⟨fun o hm text hr => ?_, fun o hm => ?_, fun o hm ha b hb hp => ?_, ?_⟩
    · obtain ⟨k, hk⟩ := innocent o hm
      exact hk (.stated text hr)
    · obtain ⟨k, hk⟩ := innocent o hm
      exact not_not.mp fun hn => hk (.names hn)
    · obtain ⟨k, hk⟩ := innocent o hm
      exact hk (.argument b hb ha hp)
    · refine List.nodup_flatMap.mpr ⟨fun o hm => ?_, List.pairwise_iff_getElem.mpr ?_⟩
      · obtain ⟨k, hk⟩ := innocent o hm
        exact not_not.mp fun hd => hk (.again hd)
      · intro j k hj hk hjk name hn hr
        refine h k _ (List.getElem?_eq_getElem hk) (.bookmark name _ ?_ hn hr)
        exact List.mem_take_iff_getElem.mpr ⟨j, by omega, rfl⟩

/-- The nodes of a prepared tree are judged, each after those before it. -/
theorem judged_prepare (a : Activity) : a.prepare.nodes.length = a.occurrences.length ∧
    ∀ (k : Nat) (o : Occurrence) (n : Node), a.occurrences[k]? = some o →
      a.prepare.nodes[k]? = some n → o.Judged (a.occurrences.take k) n := by
  have stand := occurrencesAt_stand none 0 "1" [] rfl a
  have fresh : SameFirst [] (([] : List Occurrence).flatMap Occurrence.declarations) := fun _ => rfl
  have judged := Occurrence.judged_checkAllBookmarks stand fresh
  rw [prepare_nodes]
  exact judged

/-- Preparing a tree finds no error exactly if the tree is well formed. Its nodes stand for its
activities in pre-order; the errors of a node are the objections to its activity, so that a node is
valid exactly if its activity does not offend. -/
theorem valid_iff_wellFormed (a : Activity) : (a.prepare.ensureValid = .ok () ↔ a.WellFormed) ∧
    a.prepare.nodes.length = a.occurrences.length ∧
    ∀ (k : Nat) (o : Occurrence) (n : Node), a.occurrences[k]? = some o →
      a.prepare.nodes[k]? = some n → o.Judged (a.occurrences.take k) n ∧
        (n.isValid = true ↔ ¬ o.Offends (a.occurrences.take k)) := by
  obtain ⟨length, judged⟩ := a.judged_prepare
  refine ⟨?_, length, fun k o n ho hn => ⟨judged k o n ho hn, (judged k o n ho hn).isValid_iff⟩⟩
  rw [Definition.ensureValid_iff, wellFormed_iff]
  constructor
  · intro valid k o ho
    obtain ⟨hk, -⟩ := List.getElem?_eq_some_iff.mp ho
    obtain ⟨n, hn⟩ : ∃ n, a.prepare.nodes[k]? = some n :=
      ⟨_, List.getElem?_eq_getElem (length.symm ▸ hk)⟩
    exact (judged k o n ho hn).isValid_iff.mp (valid n (List.mem_of_getElem? hn))
  · intro innocent n hm
    obtain ⟨k, hn⟩ := List.getElem?_of_mem hm
    obtain ⟨hk, -⟩ := List.getElem?_eq_some_iff.mp hn
    obtain ⟨o, ho⟩ : ∃ o, a.occurrences[k]? = some o := ⟨_, List.getElem?_eq_getElem (length ▸ hk)⟩
    exact (judged k o n ho hn).isValid_iff.mpr (innocent k o ho)

/-- An activity that needs an order and says that it creates a bookmark. -/
def needing (name bookmark : String) (children : List Activity) : Activity :=
  .mk name ⟨name, name, fun _ => [.bookmark bookmark], .code (.done none)⟩ children []
    [⟨"order", .input, true, .unbound⟩]

/-- A tree in which the root may wait for its order from outside, and the activity below it may not. -/
def flawed : Activity :=
  needing "flow" "go" [needing "ask" "reply" []]

/-- The activity below the root offends, and the root does not. -/
theorem valid_iff_wellFormed_flawed : ¬ flawed.WellFormed ∧
    ∃ o p n m, flawed.occurrences = [o, p] ∧ flawed.prepare.nodes = [n, m] ∧
      o.Judged [] n ∧ p.Judged [o] m ∧ n.isValid = true ∧ m.isValid = false := by
  obtain ⟨valid, length, judged⟩ := valid_iff_wellFormed flawed
  obtain ⟨n, m, hnm⟩ := List.length_eq_two.mp length
  have root := judged 0 _ n rfl (by rw [hnm]; rfl)
  have below := judged 1 ⟨"1.1", [flawed], needing "ask" "reply" []⟩ m rfl (by rw [hnm]; rfl)
  have offends : Occurrence.Offends ⟨"1.1", [flawed], needing "ask" "reply" []⟩
      (flawed.occurrences.take 1) :=
    .argument _ List.mem_cons_self (List.cons_ne_nil _ _) (.unbound rfl rfl rfl)
  have invalid : m.isValid = false := by
    rw [← Bool.not_eq_true, below.2]
    exact not_not.mpr offends
  refine ⟨fun h => ?_, _, _, n, m, rfl, hnm, root.1, below.1, ?_, invalid⟩
  · have all := flawed.prepare.ensureValid_iff.mp (valid.mpr h) m (by rw [hnm]; simp)
    exact absurd (invalid.symm.trans all) Bool.false_ne_true
  · have found : (flawed.prepare.nodes[0]?.map (·.isValid)) = some true := by decide +kernel
    rw [hnm] at found
    exact Option.some.inj found

end Activity

end Workflow
