import BytecodeScopes.Literal.Table
import BytecodeScopes.Proofs.Table.FirstSeen

namespace BytecodeScopes

namespace Literals

@[ext] structure Request where
  kind : LiteralKind
  text : String
  deriving DecidableEq, Repr

def Request.literal (r : Request) : Literal := .ofKind r.kind r.text

def Request.ofLiteral (l : Literal) : Request := ⟨l.kind, l.value⟩

@[simp] theorem Request.ofLiteral_literal (r : Request) : ofLiteral r.literal = r := by
  rw [ofLiteral, literal, Literal.kind_ofKind]
  rfl

/-- Tags cut off lengths, but neither kinds nor texts are mixed up. -/
theorem Request.literal_injective : Function.Injective literal :=
  Function.LeftInverse.injective ofLiteral_literal

def ask (t : Literals) (r : Request) : Reply Literals Nat := t.add r.kind r.text

def run (t : Literals) (requests : List Request) : Literals := runBy ask t requests

theorem ask_eq (t : Literals) (r : Request) :
    t.ask r =
      if t.admits capacity r.literal then .accept (t.insert r.literal).2 (t.insert r.literal).1
      else .refuse t (.tableFull .literals) := by
  have checked : t.checkAdd r.kind r.text =
      if t.admits capacity r.literal then .ok () else .error (.tableFull .literals) := rfl
  exact Reply.attempt_of_ite t (·.checkAdd r.kind r.text) (fun t _ => t.intern r.kind r.text)
    checked

theorem after_ask (t : Literals) (r : Request) : (t.ask r).after = t.offer capacity r.literal := by
  rw [ask_eq, Interned.offer]
  split <;> rfl

theorem answer_ask (t : Literals) (r : Request) :
    (t.ask r).answer =
      if t.admits capacity r.literal then .ok (t.insert r.literal).1
      else .error (.tableFull .literals) := by
  rw [ask_eq]
  split <;> rfl

theorem ask_error {t : Literals} {r : Request} {fault : Fault}
    (refused : (t.ask r).answer = .error fault) : (t.ask r).after = t := Reply.attempt_error refused

theorem run_eq_collect (requests : List Request) :
    run .empty requests =
      Interned.collect (fun l : Literal => l) capacity (requests.map Request.literal) := by
  induction requests using List.reverseRecOn with
  | nil => rfl
  | append_singleton requests r ih =>
      rw [run, runBy_concat, ← run, after_ask, ih, List.map_append, List.map_singleton,
        Interned.collect_concat]

theorem entries_run (requests : List Request) :
    (run .empty requests).entries.toList =
      (Interned.firstSeen capacity requests).map Request.literal := by
  have keys : (run .empty requests).keys =
      Interned.firstSeen capacity ((requests.map Request.literal).map fun l => l) := by
    rw [run_eq_collect, Interned.keys_collect]
  rw [Interned.keys, List.map_id', List.map_id'] at keys
  rw [keys, Interned.firstSeen_map Request.literal_injective]

theorem answer_run (front : List Request) (r : Request) (back : List Request) :
    let firsts := Interned.firstSeen capacity (front ++ r :: back)
    ((run .empty front).ask r).answer =
      if r ∈ firsts then .ok (firsts.idxOf r) else .error (.tableFull .literals) := by
  intro firsts
  have all : Interned.firstSeen capacity
      ((front.map Request.literal ++ r.literal :: back.map Request.literal).map fun l => l) =
        firsts.map Request.literal := by
    rw [List.map_id', ← List.map_cons, ← List.map_append,
      Interned.firstSeen_map Request.literal_injective]
  rw [answer_ask, run_eq_collect, Interned.answer_collect _ _ r.literal (back.map Request.literal),
    all, Interned.idxOf_map Request.literal_injective]
  simp only [List.mem_map_of_injective Request.literal_injective]

/-- The literals in the table are the different kinds and texts asked for, in the order of the first
requests and as many as have an index. Every request for one of them is answered with its place
there, so equal indices mean equal kinds and texts; every other request is refused and changes
nothing. A literal gives back the kind and the text it was asked for by, whatever its length. -/
theorem literals_first_seen (requests : List Request) :
    let t := run .empty requests
    let firsts := requests.eraseDups.take 65536
    t.entries.toList.map Request.ofLiteral = firsts ∧
    (∀ front r back, requests = front ++ r :: back →
      ((run .empty front).ask r).answer =
        if r ∈ firsts then .ok (firsts.idxOf r) else .error (.tableFull .literals)) ∧
    (∀ front r back front' r' back' i i',
      requests = front ++ r :: back → requests = front' ++ r' :: back' →
      ((run .empty front).ask r).answer = .ok i → ((run .empty front').ask r').answer = .ok i' →
      (i = i' ↔ r.kind = r'.kind ∧ r.text = r'.text)) ∧
    (∀ r fault, (t.ask r).answer = .error fault → (t.ask r).after = t) ∧
    (∀ i r, firsts[i]? = some r → ∃ l, t.get? i = some l ∧
      l.kind = r.kind ∧ l.value = r.text ∧ l.tag = r.kind.tag r.text.utf8ByteSize) := by
  intro t firsts
  have entries : t.entries.toList = firsts.map Request.literal := entries_run requests
  have answered : ∀ front r back, requests = front ++ r :: back →
      ((run .empty front).ask r).answer =
        if r ∈ firsts then .ok (firsts.idxOf r) else .error (.tableFull .literals) := by
    intro front r back split
    rw [answer_run front r back, ← split]
    rfl
  have placed : ∀ front r back i, requests = front ++ r :: back →
      ((run .empty front).ask r).answer = .ok i → r ∈ firsts ∧ i = firsts.idxOf r := by
    intro front r back i split accepted
    rw [answered front r back split] at accepted
    split at accepted
    · cases accepted
      exact ⟨‹_›, rfl⟩
    · cases accepted
  refine ⟨?_, answered, ?_, fun _ _ => ask_error, ?_⟩
  · have back : Request.ofLiteral ∘ Request.literal = id := funext Request.ofLiteral_literal
    rw [entries, List.map_map, back, List.map_id]
  · intro front r back front' r' back' i i' split split' accepted accepted'
    obtain ⟨inside, place⟩ := placed front r back i split accepted
    obtain ⟨-, place'⟩ := placed front' r' back' i' split' accepted'
    rw [place, place', List.idxOf_inj inside, Request.ext_iff]
  · intro i r there
    refine ⟨r.literal, ?_, Literal.kind_ofKind .., rfl, rfl⟩
    rw [Interned.get?, ← Array.getElem?_toList, entries, List.getElem?_map, there]
    rfl

/-- The tag of an empty text is also the tag of one of a gibibyte. -/
example : LiteralKind.string.tag 0 = LiteralKind.string.tag 1073741824 := by decide

end Literals

end BytecodeScopes
