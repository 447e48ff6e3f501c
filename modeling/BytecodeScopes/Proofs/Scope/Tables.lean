import BytecodeScopes.Proofs.Scope.Refusal

namespace BytecodeScopes

namespace Interned

variable {α κ : Type} [BEq κ] [Hashable κ] {key : α → κ}

theorem isSome_find?_iff (t : Interned key) (k : κ) :
    (t.find? k).isSome = true ↔ k ∈ t.entries.toList.map key := by
  simp only [Option.isSome_iff_exists, find?_eq_some_iff, get?, Option.map_eq_some_iff]
  simp only [List.mem_map, Array.mem_toList_iff, Array.mem_iff_getElem?]
  constructor
  · rintro ⟨i, a, there, same⟩
    exact ⟨a, ⟨i, there⟩, same⟩
  · rintro ⟨a, ⟨i, there⟩, same⟩
    exact ⟨i, a, there, same⟩

variable [LawfulBEq κ]

theorem entries_insert (t : Interned key) (a : α) :
    (t.insert a).2.entries =
      if (t.find? (key a)).isSome = true then t.entries else t.entries.push a := by
  cases found : t.find? (key a) with
  | some i => simp [insert_of_find?_some found]
  | none => simp [(insert_of_find?_none found).2]

theorem size_insert_le {t : Interned key} {a : α} {capacity : Nat} (fits : t.size ≤ capacity)
    (admitted : t.admits capacity (key a) = true) : (t.insert a).2.size ≤ capacity := by
  rw [admits, Bool.or_eq_true, decide_eq_true_eq] at admitted
  rw [size, entries_insert]
  split
  · exact fits
  · rename_i fresh
    rw [Array.size_push]
    exact admitted.resolve_left fresh

end Interned

namespace Symbols

theorem size_eq (t : Symbols) : t.size = t.names.length := by
  simp [size, Interned.size, names]

theorem mem_names_iff (t : Symbols) (name : String) :
    name ∈ t.names ↔ (t.find? name).isSome = true := (t.table.isSome_find?_iff name).symm

theorem checkAdd_eq_ok_iff (t : Symbols) (name : String) :
    t.checkAdd name = .ok () ↔ name ∈ t.names ∨ t.size < capacity := by
  have admitted : t.table.admits capacity name = true ↔ name ∈ t.names ∨ t.size < capacity := by
    rw [Interned.admits, Bool.or_eq_true, decide_eq_true_eq, mem_names_iff]
    rfl
  rw [← admitted, checkAdd]
  split <;> simp_all

theorem names_intern (t : Symbols) (name : String) (origin : Origin) :
    (t.intern name origin).2.names =
      if name ∈ t.names then t.names else t.names ++ [name] := by
  have entries : (t.table.insert ⟨name, origin⟩).2.entries =
      if name ∈ t.names then t.table.entries else t.table.entries.push ⟨name, origin⟩ := by
    rw [Interned.entries_insert]
    exact ite_congr (propext (t.mem_names_iff name).symm) (fun _ => rfl) (fun _ => rfl)
  change (t.table.insert ⟨name, origin⟩).2.entries.toList.map Symbol.name = _
  rw [entries]
  split
  · rfl
  · rw [Array.toList_push, List.map_append]
    rfl

theorem mem_names_intern (t : Symbols) (name : String) (origin : Origin) (other : String) :
    other ∈ (t.intern name origin).2.names ↔ other ∈ t.names ∨ other = name := by
  rw [names_intern]
  split
  · rename_i there
    constructor
    · exact .inl
    · rintro (member | rfl)
      · exact member
      · exact there
  · simp

theorem size_intern_le {t : Symbols} {name : String} (fits : t.size ≤ capacity)
    (checked : t.checkAdd name = .ok ()) (origin : Origin) :
    (t.intern name origin).2.size ≤ capacity := by
  refine Interned.size_insert_le fits ?_
  unfold checkAdd at checked
  split at checked
  · assumption
  · cases checked

/-- The table holds at most as many names as indices, the selectors of setters in use among them. -/
structure Fit (t : Symbols) : Prop where
  bounded : t.size ≤ capacity
  setters : ∀ setter ∈ t.setters, setter.selector ∈ t.names

theorem Fit.intern {t : Symbols} (fit : t.Fit) {name : String} (checked : t.checkAdd name = .ok ())
    (origin : Origin) : (t.intern name origin).2.Fit where
  bounded := size_intern_le fit.bounded checked origin
  setters := fun setter member =>
    (mem_names_intern t name origin _).mpr (.inl (fit.setters setter member))

theorem checkSetter_ok {t : Symbols} {name : String} {known : Option Nat}
    (checked : t.checkSetter name = .ok known) :
    (∃ setter ∈ t.setters, setter.selector = selector name ∧ known = some setter.index) ∨
      t.checkAdd (selector name) = .ok () ∧ known = none := by
  unfold checkSetter at checked
  cases used : t.setter? (selector name) with
  | some setter =>
      rw [used] at checked
      cases checked
      refine .inl ⟨setter, List.mem_of_find?_eq_some used, ?_, rfl⟩
      simpa using List.find?_some used
  | none =>
      rw [used] at checked
      cases added : t.checkAdd (selector name) with
      | ok done =>
          simp only [added, Except.map, Except.ok.injEq] at checked
          exact .inr ⟨rfl, checked.symm⟩
      | error fault =>
          rw [added] at checked
          cases checked

theorem internSetter_fit {t : Symbols} (fit : t.Fit) {name : String} {known : Option Nat}
    (checked : t.checkSetter name = .ok known) :
    (t.internSetter name known).2.Fit ∧
      ∀ other, other ∈ (t.internSetter name known).2.names ↔
        other ∈ t.names ∨ other = selector name := by
  rcases checkSetter_ok checked with ⟨setter, member, same, rfl⟩ | ⟨added, rfl⟩
  · have there : selector name ∈ t.names := same ▸ fit.setters setter member
    refine ⟨fit, fun other => ⟨.inl, ?_⟩⟩
    rintro (old | rfl)
    · exact old
    · exact there
  · have interned := fit.intern added .synthesized
    have names := mem_names_intern t (selector name) .synthesized
    refine ⟨⟨interned.bounded, ?_⟩, names⟩
    intro setter member
    rcases List.mem_cons.mp member with rfl | older
    · exact (names _).mpr (.inr rfl)
    · exact interned.setters setter older

theorem popSetter_fit {t : Symbols} (fit : t.Fit) :
    t.popSetter.2.Fit ∧ t.popSetter.2.names = t.names := by
  unfold popSetter
  split
  · exact ⟨fit, rfl⟩
  · rename_i setter rest stack
    refine ⟨⟨fit.bounded, ?_⟩, rfl⟩
    intro other member
    exact fit.setters other (by rw [stack]; exact List.mem_cons_of_mem setter member)

end Symbols

namespace Scope

theorem tables_step_of_apart {s : Scope} {op : Op} (apart : .tables ∉ op.touches) :
    (s.step op).after.symbols = s.symbols ∧ (s.step op).after.literals = s.literals := by
  apply after_step
    (P := fun after => after.symbols = s.symbols ∧ after.literals = s.literals) op ⟨rfl, rfl⟩
  · intro _ kept
    exact kept
  · exact fun _ _ _ _ _ => ⟨rfl, rfl⟩
  · intro touched
    exact absurd touched apart
  · intro _ _ _ _ kept
    exact kept
  · exact fun _ _ => ⟨rfl, rfl⟩
  · exact fun _ _ => ⟨rfl, rfl⟩
  · exact fun _ _ _ _ => ⟨rfl, rfl⟩

theorem tables_finish (s : Scope) (childCount : Nat) :
    (s.finish childCount).after.symbols = s.symbols ∧
      (s.finish childCount).after.literals = s.literals :=
  after_finish (P := fun after => after.symbols = s.symbols ∧ after.literals = s.literals)
    childCount ⟨rfl, rfl⟩ ⟨rfl, rfl⟩ (fun _ _ => ⟨rfl, rfl⟩)

def Op.symbol? : Op → Option String
  | .addSymbol name => some name
  | .addSetter name => some (Symbols.selector name)
  | _ => none

theorem literals_step {s : Scope} (fits : s.literals.size ≤ Literals.capacity) (op : Op) :
    (s.step op).after.literals.size ≤ Literals.capacity := by
  let Fits (after : Scope) : Prop := after.literals.size ≤ Literals.capacity
  by_cases touched : .tables ∈ op.touches
  · cases op with
    | addLiteral kind value =>
        apply after_attempt (P := Fits) fits (fun _ => fits)
        intro plan building checked
        refine Interned.size_insert_le fits ?_
        unfold Literals.checkAdd at checked
        split at checked
        · assumption
        · cases checked
    | addSymbol | addSetter =>
        exact after_attempt (P := Fits) fits (fun _ => fits) (fun _ _ _ => fits)
    | popSetter | pushText | popText => exact after_change (P := Fits) fits (fun _ => fits)
    | _ => simp [Op.touches] at touched
  · rw [(tables_step_of_apart touched).2]
    exact fits

/-- After a reply the symbols fit, and they are those there were and the name asked for if the
answer is yes. -/
structure Interns {α : Type} (s : Scope) (asked : Option String) (reply : Reply Scope α) :
    Prop where
  fit : reply.after.symbols.Fit
  names : ∀ name, name ∈ reply.after.symbols.names ↔
    name ∈ s.symbols.names ∨ asked = some name ∧ ∃ answer, reply.answer = .ok answer

section Interns

variable {α β : Type} {s : Scope} {asked : Option String}

theorem Interns.map {reply : Reply Scope α} (interns : s.Interns asked reply) (f : α → β) :
    s.Interns asked (reply.map f) where
  fit := interns.fit
  names := by
    intro name
    have answered : (∃ b, (reply.map f).answer = .ok b) ↔ ∃ a, reply.answer = .ok a := by
      simp only [Reply.map_eq_ok_iff]
      exact ⟨fun ⟨_, a, given, _⟩ => ⟨a, given⟩, fun ⟨a, given⟩ => ⟨f a, a, given, rfl⟩⟩
    rw [Reply.after_map, interns.names name, answered]

theorem interns_of_refused (fit : s.symbols.Fit) {reply : Reply Scope α} {fault : Fault}
    (refused : reply.answer = .error fault) (kept : reply.after.symbols = s.symbols) :
    s.Interns asked reply where
  fit := kept ▸ fit
  names := by simp [kept, refused]

theorem interns_of_kept (fit : s.symbols.Fit) {reply : Reply Scope α}
    (kept : reply.after.symbols = s.symbols) : s.Interns none reply where
  fit := kept ▸ fit
  names := by simp [kept]

theorem interns_attempt (fit : s.symbols.Fit) {check : Scope → Except Fault β}
    {commit : Scope → β → α × Scope}
    (grown : ∀ plan, check s = .ok plan → (commit s plan).2.symbols.Fit ∧
      ∀ name, name ∈ (commit s plan).2.symbols.names ↔
        name ∈ s.symbols.names ∨ asked = some name) :
    s.Interns asked (s.attempt check commit) := by
  rcases attempt_cases s check commit with
    ⟨plan, -, checked, accepted⟩ | ⟨fault, phase, refused, stopped⟩
  · obtain ⟨fits, names⟩ := grown plan checked
    rw [accepted]
    exact ⟨fits, fun name => by simp [Reply.accept, names name]⟩
  · apply interns_of_refused fit refused
    rw [stopped]

end Interns

theorem interns_addSymbol {s : Scope} (fit : s.symbols.Fit) (name : String) :
    s.Interns (some name) (s.addSymbol name) := by
  apply interns_attempt fit
  intro plan checked
  refine ⟨fit.intern checked .source, fun other => ?_⟩
  rw [Option.some.injEq, eq_comm (a := name)]
  exact Symbols.mem_names_intern s.symbols name .source other

theorem interns_addSetter {s : Scope} (fit : s.symbols.Fit) (name : String) :
    s.Interns (some (Symbols.selector name)) (s.addSetter name) := by
  apply interns_attempt fit
  intro known checked
  obtain ⟨fits, names⟩ := Symbols.internSetter_fit fit checked
  refine ⟨fits, fun other => ?_⟩
  rw [Option.some.injEq, eq_comm (a := Symbols.selector name)]
  exact names other

theorem interns_popSetter {s : Scope} (fit : s.symbols.Fit) : s.Interns none s.popSetter := by
  obtain ⟨fits, names⟩ := Symbols.popSetter_fit fit
  let Kept (after : Scope) : Prop := after.symbols.Fit ∧ after.symbols.names = s.symbols.names
  have kept : Kept s.popSetter.after :=
    after_change (P := Kept) ⟨fit, rfl⟩ (fun _ => ⟨fits, names⟩)
  exact ⟨kept.1, fun name => by simp [kept.2]⟩

theorem symbol?_of_apart {op : Op} (apart : .tables ∉ op.touches) : op.symbol? = none := by
  cases op with
  | addSymbol | addSetter => simp [Op.touches] at apart
  | _ => rfl

theorem interns_step {s : Scope} (fit : s.symbols.Fit) (op : Op) :
    s.Interns op.symbol? (s.step op) := by
  by_cases touched : .tables ∈ op.touches
  · cases op with
    | addSymbol name => exact (interns_addSymbol fit name).map _
    | addSetter name => exact (interns_addSetter fit name).map _
    | popSetter => exact (interns_popSetter fit).map _
    | addLiteral kind value =>
        apply interns_of_kept fit
        exact after_attempt (P := (·.symbols = s.symbols)) rfl (fun _ => rfl) (fun _ _ _ => rfl)
    | pushText | popText =>
        apply interns_of_kept fit
        exact after_change (P := (·.symbols = s.symbols)) rfl (fun _ => rfl)
    | _ => simp [Op.touches] at touched
  · rw [symbol?_of_apart touched]
    exact interns_of_kept fit (tables_step_of_apart touched).1

structure TablesFit (s : Scope) : Prop where
  symbols : s.symbols.Fit
  literals : s.literals.size ≤ Literals.capacity

theorem TablesFit.move {s : Scope} (fit : s.TablesFit) (m : Move) : (s.move m).after.TablesFit := by
  cases m with
  | act op => exact ⟨(interns_step fit.symbols op).fit, literals_step fit.literals op⟩
  | finish childCount =>
      obtain ⟨symbols, literals⟩ := s.tables_finish childCount
      refine ⟨?_, ?_⟩
      · change (s.finish childCount).after.symbols.Fit
        exact symbols ▸ fit.symbols
      · change (s.finish childCount).after.literals.size ≤ _
        exact literals ▸ fit.literals

theorem tablesFit_fresh (id : ScopeId) (parent : Option ScopeId) (top : Bool) (nesting : Nesting)
    (limits : Limits) : (fresh id parent top nesting limits).TablesFit where
  symbols := ⟨Nat.zero_le _, fun setter member => by cases member⟩
  literals := Nat.zero_le _

end Scope

end BytecodeScopes
