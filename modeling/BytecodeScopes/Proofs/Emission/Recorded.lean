import BytecodeScopes.Proofs.Emission.History
import BytecodeScopes.Proofs.Patching
import Mathlib.Data.List.Nodup

/-!
A body of code and its labels as a history tells them. Each change of code or labels keeps to the
history that the change extends: appended bytes move nothing, and a resolved label changes its own
two bytes only.
-/

namespace BytecodeScopes

/-- Every operand stands where the pieces before it end, and its label's position is behind it. -/
def History.Placed (h : History) : Prop :=
  ∀ front label back, h.pieces = front ++ .operand label :: back →
    label.operand = width front ∧ label.position = width front + 2

structure Recorded (h : History) (ls : Labels) (code : Code) : Prop where
  code_eq : code.bytes.toList = h.code
  jumps_eq : ls.jumps.toList = h.labels.map fun label => ⟨label, h.target? label⟩
  numbered : ∀ (i : Nat) (label : Label), h.labels[i]? = some label → label.id.index = i
  placed : h.Placed
  counted : ls.unresolved = h.labels.countP fun label => (h.resolution? label).isNone
  known : ∀ r ∈ h.resolutions, r.label ∈ h.labels
  once : (h.resolutions.map (·.label)).Nodup
  fits : ∀ r ∈ h.resolutions, -32768 ≤ r.distance ∧ r.distance ≤ 32767

namespace History

theorem placed_write {h : History} (placed : h.Placed) {piece : Piece}
    (last : ∀ label, piece = .operand label →
      label.operand = width h.pieces ∧ label.position = width h.pieces + 2) :
    (h.write piece).Placed := by
  intro front label back split
  rcases List.eq_nil_or_concat back with rfl | ⟨rest, final, rfl⟩
  · obtain ⟨begins, ends⟩ := List.append_inj' split rfl
    cases ends
    rw [← begins]
    exact last label rfl
  · have moved : h.pieces ++ [piece] = (front ++ .operand label :: rest) ++ [final] := by
      simpa [write] using split
    exact placed front label rest (List.append_inj' moved rfl).1

theorem mem_labels_iff (h : History) (label : Label) :
    label ∈ h.labels ↔ .operand label ∈ h.pieces := by
  simp only [labels, List.mem_filterMap]
  constructor
  · rintro ⟨piece, member, given⟩
    cases piece with
    | plain bytes => cases given
    | operand other =>
        cases given
        exact member
  · intro member
    exact ⟨.operand label, member, rfl⟩

end History

namespace Recorded

variable {h : History} {ls : Labels} {code : Code}

theorem empty : Recorded {} {} {} where
  code_eq := rfl
  jumps_eq := rfl
  numbered := by simp [History.labels]
  placed := by simp [History.Placed]
  counted := rfl
  known := by simp
  once := by simp
  fits := by simp

theorem size_eq (recorded : Recorded h ls code) : code.size = History.width h.pieces := by
  rw [← History.length_flatMap_bytes h, Code.size, ← Array.length_toList, recorded.code_eq]
  rfl

theorem length_labels (recorded : Recorded h ls code) : ls.jumps.size = h.labels.length := by
  rw [← Array.length_toList, recorded.jumps_eq, List.length_map]

theorem nodup_labels (recorded : Recorded h ls code) : h.labels.Nodup := by
  rw [List.nodup_iff_getElem?_ne_getElem?]
  intro i j before bound same
  have inside : h.labels[j]? = some h.labels[j] := List.getElem?_eq_getElem bound
  have first := recorded.numbered j _ inside
  have second := recorded.numbered i _ (same.trans inside)
  omega

theorem append (recorded : Recorded h ls code) {grown : Code} {bytes : List UInt8}
    (appended : grown.bytes.toList = code.bytes.toList ++ bytes) :
    Recorded (h.write (.plain bytes)) ls grown where
  code_eq := by
    rw [History.code_write, appended, recorded.code_eq]
    rfl
  jumps_eq := by
    rw [History.labels_write_plain]
    exact recorded.jumps_eq
  numbered := by
    rw [History.labels_write_plain]
    exact recorded.numbered
  placed := History.placed_write recorded.placed nofun
  counted := by
    rw [History.labels_write_plain]
    exact recorded.counted
  known := by
    rw [History.labels_write_plain]
    exact recorded.known
  once := recorded.once
  fits := recorded.fits

theorem reserved_fresh (recorded : Recorded h ls code) :
    (ls.reserve code).1 ∉ h.labels := by
  intro member
  obtain ⟨i, inside⟩ := List.mem_iff_getElem?.mp member
  have number := recorded.numbered i _ inside
  have bound := (List.getElem?_eq_some_iff.mp inside).1
  -- the new label has the next number, and those in the history have all before
  have size := recorded.length_labels
  simp only [Labels.reserve] at number
  omega

theorem resolution?_of_fresh (recorded : Recorded h ls code) {label : Label}
    (fresh : label ∉ h.labels) : h.resolution? label = none := by
  rw [History.resolution?_eq_none_iff]
  intro member
  obtain ⟨r, resolved, rfl⟩ := List.mem_map.mp member
  exact fresh (recorded.known r resolved)

theorem reserve (recorded : Recorded h ls code) (small : code.size + 2 < 4294967296) :
    Recorded (h.write (.operand (ls.reserve code).1)) (ls.reserve code).2.1
      (ls.reserve code).2.2 := by
  have unresolved := recorded.resolution?_of_fresh recorded.reserved_fresh
  have size := recorded.size_eq
  constructor
  case code_eq =>
    rw [History.code_write, ← recorded.code_eq, History.bytes, unresolved]
    simp [Labels.reserve, Code.pushWord, BigEndian.word16]
  case jumps_eq =>
    have target : h.target? (ls.reserve code).1 = none := by
      rw [History.target?, unresolved]
      rfl
    have pushed : (ls.reserve code).2.1.jumps.toList =
        ls.jumps.toList ++ [⟨(ls.reserve code).1, none⟩] := by
      simp [Labels.reserve]
    rw [History.labels_write_operand, List.map_append, List.map_singleton, pushed,
      recorded.jumps_eq]
    change _ = _ ++ [Jump.mk (ls.reserve code).1 (h.target? (ls.reserve code).1)]
    rw [target]
    rfl
  case numbered =>
    intro i label inside
    rw [History.labels_write_operand, List.getElem?_append] at inside
    split at inside
    · exact recorded.numbered i label inside
    · rename_i outside
      have last : i - h.labels.length = 0 := by
        have bound := (List.getElem?_eq_some_iff.mp inside).1
        rw [List.length_singleton] at bound
        omega
      rw [last] at inside
      cases inside
      have length := recorded.length_labels
      simp only [Labels.reserve]
      omega
  case placed =>
    apply History.placed_write recorded.placed
    intro label same
    cases same
    simp only [Labels.reserve, Code.position, Code.size_pushWord]
    omega
  case counted =>
    rw [History.labels_write_operand, List.countP_append]
    change ls.unresolved + 1 = h.labels.countP (fun label => (h.resolution? label).isNone) +
      List.countP (fun label => (h.resolution? label).isNone) [(ls.reserve code).1]
    rw [recorded.counted, List.countP_singleton, unresolved]
    rfl
  case known =>
    intro r resolved
    rw [History.labels_write_operand]
    exact List.mem_append_left _ (recorded.known r resolved)
  case once => exact recorded.once
  case fits => exact recorded.fits

theorem waiting (recorded : Recorded h ls code) (pending : Array LabelId) :
    Recorded h { ls with pending } code where
  code_eq := recorded.code_eq
  jumps_eq := recorded.jumps_eq
  numbered := recorded.numbered
  placed := recorded.placed
  counted := recorded.counted
  known := recorded.known
  once := recorded.once
  fits := recorded.fits

theorem getElem?_labels (recorded : Recorded h ls code) {label : Label}
    (given : label ∈ h.labels) : h.labels[label.id.index]? = some label := by
  obtain ⟨i, inside⟩ := List.mem_iff_getElem?.mp given
  rw [recorded.numbered i label inside, inside]

theorem getElem?_jumps (recorded : Recorded h ls code) (i : Nat) :
    ls.jumps[i]? = h.labels[i]?.map fun label => ⟨label, h.target? label⟩ := by
  rw [← Array.getElem?_toList, recorded.jumps_eq, List.getElem?_map]

theorem jump?_of_mem (recorded : Recorded h ls code) {label : Label} (given : label ∈ h.labels) :
    ls.jump? label = some ⟨label, h.target? label⟩ := by
  rw [Labels.jump?, recorded.getElem?_jumps, recorded.getElem?_labels given]
  simp

theorem jump?_of_not_mem (recorded : Recorded h ls code) {label : Label}
    (foreign : label ∉ h.labels) : ls.jump? label = none := by
  rw [Labels.jump?, recorded.getElem?_jumps]
  cases found : h.labels[label.id.index]? with
  | none => rfl
  | some other =>
      have different : other ≠ label := by
        rintro rfl
        exact foreign (List.mem_of_getElem? found)
      simp [different]

theorem target?_eq (recorded : Recorded h ls code) {label : Label} (given : label ∈ h.labels) :
    ls.target? label = h.target? label := by
  rw [Labels.target?, recorded.getElem?_jumps, recorded.getElem?_labels given]
  rfl

theorem operand_inside (recorded : Recorded h ls code) {label : Label} (given : label ∈ h.labels) :
    label.operand + 2 ≤ code.size := by
  obtain ⟨front, back, split⟩ := List.append_of_mem ((h.mem_labels_iff label).mp given)
  have placed := (recorded.placed front label back split).1
  have width : History.width h.pieces =
      History.width front + (2 + History.width back) := by
    rw [split, History.width_append]
    rfl
  have size := recorded.size_eq
  omega

theorem checkResolve_of_resolvable (recorded : Recorded h ls code) {limits : Limits}
    {label : Label} {target : Nat} (resolvable : h.Resolvable limits label target) :
    ls.checkResolve code limits label target =
      .ok (⟨label, target⟩ : Resolution).distance := by
  obtain ⟨given, unresolved, low, high⟩ := resolvable
  have untargeted : h.target? label = none := by
    rw [History.target?, unresolved]
    rfl
  have room := (code.checkPatch_eq_ok_iff label.operand).mpr (recorded.operand_inside given)
  rw [Labels.checkResolve, recorded.jump?_of_mem given]
  simp only [untargeted, Option.isSome_none, Bool.false_eq_true, if_false]
  rw [if_pos ⟨low, high⟩, room]
  rfl

theorem checkResolve_of_not_resolvable (recorded : Recorded h ls code) {limits : Limits}
    {label : Label} {target : Nat} (stuck : ¬ h.Resolvable limits label target) :
    ∃ fault, ls.checkResolve code limits label target = .error fault := by
  by_cases given : label ∈ h.labels
  · rw [Labels.checkResolve, recorded.jump?_of_mem given]
    cases resolved : h.resolution? label with
    | some r => exact ⟨.labelResolved label.id, by simp [History.target?, resolved]⟩
    | none =>
        have range : ¬ (limits.jumpMin ≤ (target : Int) - (label.position : Int) ∧
            (target : Int) - (label.position : Int) ≤ limits.jumpMax) :=
          fun inside => stuck ⟨given, resolved, inside⟩
        have untargeted : h.target? label = none := by
          rw [History.target?, resolved]
          rfl
        refine ⟨.jumpOutOfRange label.position target, ?_⟩
        simp only [untargeted, Option.isSome_none, Bool.false_eq_true, if_false]
        rw [if_neg range]
  · rw [Labels.checkResolve, recorded.jump?_of_not_mem given]
    exact ⟨_, rfl⟩

theorem split_at (recorded : Recorded h ls code) {label : Label} (given : label ∈ h.labels) :
    ∃ front back, h.pieces = front ++ .operand label :: back ∧
      label.operand = History.width front ∧
      .operand label ∉ front ∧ .operand label ∉ back := by
  obtain ⟨front, back, split⟩ := List.append_of_mem ((h.mem_labels_iff label).mp given)
  have labels : h.labels =
      front.filterMap Piece.label? ++ label :: back.filterMap Piece.label? := by
    rw [History.labels, split, List.filterMap_append]
    rfl
  have distinct := recorded.nodup_labels
  rw [labels, List.nodup_append, List.nodup_cons] at distinct
  obtain ⟨-, ⟨behind, -⟩, before⟩ := distinct
  refine ⟨front, back, split, (recorded.placed front label back split).1, ?_, ?_⟩
  · intro member
    exact before label (List.mem_filterMap.mpr ⟨_, member, rfl⟩) label List.mem_cons_self rfl
  · intro member
    exact behind (List.mem_filterMap.mpr ⟨_, member, rfl⟩)

theorem code_settle (recorded : Recorded h ls code) {label : Label} (target : Nat)
    (given : label ∈ h.labels) (unresolved : h.resolution? label = none) :
    (code.overwrite label.operand
      (.ofInt (⟨label, target⟩ : Resolution).distance)).bytes.toList =
      (h.resolve label target).code := by
  obtain ⟨front, back, split, offset, before, behind⟩ := recorded.split_at given
  have zeros : code.bytes.toList = front.flatMap h.bytes ++ 0 :: 0 :: back.flatMap h.bytes := by
    rw [recorded.code_eq, History.code, split, List.flatMap_append, List.flatMap_cons,
      History.bytes, unresolved]
    rfl
  have width : label.operand = (front.flatMap h.bytes).length := by
    rw [offset, History.length_flatMap_bytes]
  have own : (h.resolve label target).bytes (.operand label) =
      (⟨label, target⟩ : Resolution).bytes := by
    rw [History.bytes, History.resolution?_resolve_self target unresolved]
  calc
    _ = front.flatMap h.bytes ++ (⟨label, target⟩ : Resolution).bytes ++
        back.flatMap h.bytes := by
      rw [width, Code.bytes_overwrite zeros]
      rfl
    _ = h.pieces.flatMap (h.resolve label target).bytes := by
      rw [split, List.flatMap_append, List.flatMap_cons, own,
        h.flatMap_bytes_resolve target front before, h.flatMap_bytes_resolve target back behind,
        List.append_assoc]

theorem counted_settle (recorded : Recorded h ls code) {label : Label} (target : Nat)
    (given : label ∈ h.labels) (unresolved : h.resolution? label = none) :
    h.labels.countP (fun other => (h.resolution? other).isNone) =
      h.labels.countP (fun other => ((h.resolve label target).resolution? other).isNone) + 1 := by
  obtain ⟨front, back, split⟩ := List.append_of_mem given
  have distinct := recorded.nodup_labels
  rw [split, List.nodup_append, List.nodup_cons] at distinct
  obtain ⟨-, ⟨behind, -⟩, before⟩ := distinct
  have same : ∀ others : List Label, label ∉ others →
      others.countP (fun other => (h.resolution? other).isNone) =
        others.countP (fun other => ((h.resolve label target).resolution? other).isNone) := by
    intro others absent
    apply List.countP_congr
    intro other member
    have different : other ≠ label := by
      rintro rfl
      exact absent member
    rw [History.resolution?_resolve_other target different]
  have first : label ∉ front := fun member => before label member label List.mem_cons_self rfl
  rw [split, List.countP_append, List.countP_append, List.countP_cons, List.countP_cons,
    same front first, same back behind, unresolved,
    History.resolution?_resolve_self target unresolved]
  simp only [Option.isNone_none, Option.isNone_some, if_true, Bool.false_eq_true, if_false]
  omega

theorem jumps_settle (recorded : Recorded h ls code) {label : Label} (target : Nat)
    (given : label ∈ h.labels) (unresolved : h.resolution? label = none) :
    (ls.settle label target).jumps.toList =
      h.labels.map fun other => ⟨other, (h.resolve label target).target? other⟩ := by
  apply List.ext_getElem?
  intro i
  rw [Array.getElem?_toList, Labels.settle, Array.getElem?_modify, recorded.getElem?_jumps,
    List.getElem?_map]
  split
  · rename_i same
    rw [← same, recorded.getElem?_labels given]
    simp only [Option.map_some, History.target?,
      History.resolution?_resolve_self target unresolved]
  · rename_i apart
    cases found : h.labels[i]? with
    | none => rfl
    | some other =>
        have different : other ≠ label := by
          rintro rfl
          exact apart (recorded.numbered i other found)
        simp only [Option.map_some, History.target?,
          History.resolution?_resolve_other target different]

theorem settle (recorded : Recorded h ls code) {limits : Limits} (fit : limits.JumpsFit)
    {label : Label} {target : Nat} (resolvable : h.Resolvable limits label target) :
    Recorded (h.resolve label target) (ls.settle label target)
      (code.overwrite label.operand (.ofInt (⟨label, target⟩ : Resolution).distance)) := by
  obtain ⟨given, unresolved, low, high⟩ := resolvable
  constructor
  case code_eq => exact recorded.code_settle target given unresolved
  case jumps_eq => exact recorded.jumps_settle target given unresolved
  case numbered => exact recorded.numbered
  case placed => exact recorded.placed
  case counted =>
    have fewer := recorded.counted_settle target given unresolved
    rw [← recorded.counted] at fewer
    rw [Labels.settle, fewer]
    rfl
  case known =>
    intro r resolved
    rcases List.mem_append.mp resolved with earlier | last
    · exact recorded.known r earlier
    · rw [List.mem_singleton.mp last]
      exact given
  case once =>
    have new := (h.resolution?_eq_none_iff label).mp unresolved
    rw [History.resolve, List.map_append, List.map_singleton, ← List.concat_eq_append]
    exact recorded.once.concat new
  case fits =>
    intro r resolved
    rcases List.mem_append.mp resolved with earlier | last
    · exact recorded.fits r earlier
    · rw [List.mem_singleton.mp last]
      obtain ⟨least, -, -, most⟩ := fit
      exact ⟨Int.le_trans least low, Int.le_trans high most⟩

theorem resolution?_of_mem (recorded : Recorded h ls code) {r : Resolution}
    (resolved : r ∈ h.resolutions) : h.resolution? r.label = some r := by
  cases found : h.resolution? r.label with
  | none =>
      have absent := (h.resolution?_eq_none_iff r.label).mp found
      exact absurd (List.mem_map.mpr ⟨r, resolved, rfl⟩) absent
  | some other =>
      have member := List.mem_of_find?_eq_some found
      have same : other.label = r.label := by simpa using List.find?_some found
      rw [List.inj_on_of_nodup_map recorded.once member resolved same]

theorem count_resolutions (recorded : Recorded h ls code) (none_left : ls.unresolved = 0)
    {label : Label} (given : label ∈ h.labels) :
    (h.resolutions.map (·.label)).count label = 1 := by
  have all : h.labels.countP (fun label => (h.resolution? label).isNone) = 0 := by
    rw [← recorded.counted, none_left]
  have resolved := List.countP_eq_zero.mp all label given
  have member : label ∈ h.resolutions.map (·.label) := by
    by_contra absent
    rw [(h.resolution?_eq_none_iff label).mpr absent] at resolved
    exact resolved rfl
  exact List.count_eq_one_of_mem recorded.once member

end Recorded

theorem Resolution.bytes_read {r : Resolution} (low : -32768 ≤ r.distance)
    (high : r.distance ≤ 32767) :
    ∃ first second, r.bytes = [first, second] ∧
      (BigEndian.join16 first second).toInt16.toInt = r.distance := by
  refine ⟨_, _, rfl, ?_⟩
  rw [BigEndian.join16_word16]
  exact Int16.toInt_ofInt_of_le (by omega) (by omega)

end BytecodeScopes
