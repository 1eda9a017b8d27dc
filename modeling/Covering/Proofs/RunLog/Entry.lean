import Covering.Proofs.Json.Canonical
import Covering.Proofs.Json.Decode
import Covering.Proofs.Json.Line
import Covering.RunLog.Check

/-!
# An entry is read back from its line

Entries are written by one rule and checked by another one. The check first goes
through the names and types of the fields by itself, and only a line without
faults is read as an entry; it has to find no fault in any line that an entry is
written as, whatever fields the entry has and whatever is in its texts.

Between the two the members of the object change their order: a checked object
is in canonical form. So nothing here looks at the object itself. It holds an
entry when each field is found under its name (`Holds`), in whatever order, and
both the check and the reader only look fields up.

Details are any value at all, and the only field that is not read back for
certain. They must not be `null`, which would read as nothing, have no doubles,
which are written with as many digits as it takes, and not be nested more deeply
than the parser can follow (`Part`).

## Main definitions

* `Part`: Values that are read back as members of a line.
* `Entry.Loggable`: Entries that are read back.
* `Holds`: An object in which the fields of an entry are found.

## Theorems

* `holds_canonical_toJson`: An entry is held by its canonical form.
* `objectFaults_eq_nil`, `Entry.ofJson?_eq`: An object that holds an entry has no
  faults and is read as the entry.
* `checkLine_text`: A line is checked to the entry it was written for.
-/

namespace Covering

namespace RunLog

open Json

/-- Values that are read back where they are members of a line: they have
    neither doubles nor parts that cannot be represented, are in canonical form,
    and are nested so deeply that there is room for the object around them. -/
structure Part (v : Json) : Prop where
  exact : Exact v
  canonical_eq : canonical v = v
  nesting_le : v.nesting ≤ 126

/-- Entries that are read back: numbers are words, and details are as asked. -/
structure Entry.Loggable (e : Entry) : Prop where
  order : ∀ n, e.order = some n → n < wordLimit
  seed : ∀ n, e.seed = some n → n < wordLimit
  rowCount : ∀ n, e.rowCount = some n → n < wordLimit
  obligationCount : ∀ n, e.obligationCount = some n → n < wordLimit
  durationMs : ∀ n, e.durationMs = some n → n < wordLimit
  details : ∀ d, e.details = some d → d ≠ .null ∧ Part d

/-- The fields of the entry are found in the object, each under its name. -/
structure Holds (v : Json) (e : Entry) : Prop where
  timestamp : v.member? "timestamp" = some (.string e.timestamp)
  traceId : v.member? "trace_id" = some (.string e.traceId)
  level : v.member? "level" = some (.string e.level.name)
  event : v.member? "event" = some (.string e.event)
  campaign : v.member? "campaign" = e.campaign.map Json.string
  stream : v.member? "stream" = e.stream.map fun s => .string s.name
  gate : v.member? "gate" = e.gate.map Json.string
  order : v.member? "order" = e.order.map Json.ofNat
  seed : v.member? "seed" = e.seed.map Json.ofNat
  outcome : v.member? "outcome" = e.outcome.map fun o => .string o.name
  rowCount : v.member? "row_count" = e.rowCount.map Json.ofNat
  obligationCount : v.member? "obligation_count" = e.obligationCount.map Json.ofNat
  durationMs : v.member? "duration_ms" = e.durationMs.map Json.ofNat
  artifacts : v.member? "artifact_refs" = e.artifacts.map textsToJson
  details : v.member? "details" = e.details

variable {e : Entry} {v : Json}

section Words

theorem Level.lookup_name (l : Level) : Level.words.lookup l.name = some l := by
  cases l <;> decide

theorem Outcome.lookup_name (o : Outcome) : Outcome.words.lookup o.name = some o := by
  cases o <;> decide

theorem Stream.lookup_name (s : Stream) : Stream.words.lookup s.name = some s := by
  cases s <;> decide

end Words

section Object

theorem part_string (s : String) : Part (.string s) := ⟨.string s, rfl, Nat.zero_le _⟩

theorem part_ofNat {n : Nat} (h : n < wordLimit) : Part (.ofNat n) :=
  ⟨.natural h, rfl, Nat.zero_le _⟩

theorem part_textsToJson (texts : List String) : Part (textsToJson texts) := by
  refine ⟨exact_array_map fun text _ => .string text, ?_,
    Nat.le_trans (nesting_array_map_le (fun _ => Nat.zero_le 0) texts) (by decide)⟩
  rw [textsToJson, canonical]
  congr 1
  induction texts with
  | nil => rfl
  | cons text texts ih => rw [List.map_cons, canonicalElements, ih]; rfl

/-- The members of an entry are read back. -/
theorem Entry.exists_toJson_eq (h : e.Loggable) :
    ∃ ms, e.toJson = .object ms ∧ ∀ m ∈ ms, Part m.2 := by
  refine ⟨_, rfl, ?_⟩
  simp only [List.forall_mem_append, List.forall_mem_cons, List.not_mem_nil, false_implies,
    implies_true, and_true, true_and, forall_mem_optionalMember, part_string, part_textsToJson]
  exact ⟨⟨⟨⟨⟨fun n hn => part_ofNat (h.order n hn), fun n hn => part_ofNat (h.seed n hn)⟩,
    fun n hn => part_ofNat (h.rowCount n hn)⟩, fun n hn => part_ofNat (h.obligationCount n hn)⟩,
    fun n hn => part_ofNat (h.durationMs n hn)⟩, fun d hd => (h.details d hd).2⟩

/-- The object of an entry can be parsed from a line. -/
theorem Entry.parseStrict?_text (h : e.Loggable) : parseStrict? e.text.toList = some e.toJson := by
  rcases e.exists_toJson_eq h with ⟨ms, hms, hparts⟩
  have hexact : Exact e.toJson := hms ▸ .object fun m hm => (hparts m hm).exact
  have hnesting : e.toJson.nesting ≤ nestingLimit := hms ▸
    Nat.succ_le_succ (nestingOfMembers_le fun m hm => (hparts m hm).nesting_le)
  have hparse := parseStrict?_write hexact hnesting .compact
    fun c (hc : c ∈ []) => absurd hc List.not_mem_nil
  rw [List.append_nil] at hparse
  rw [text, compact, String.toList_ofList, hparse]

/-- An entry is held by its canonical form. -/
theorem holds_canonical_toJson (h : e.Loggable) : Holds (canonical e.toJson) e := by
  have hmember (name : String) : member? name (canonical e.toJson) = member? name e.toJson := by
    rcases e.exists_toJson_eq h with ⟨ms, hms, hparts⟩
    rw [hms]
    exact member?_canonical_of_forall fun m hm => (hparts m hm).canonical_eq
  constructor
  all_goals
    rw [hmember, Entry.toJson]
    simp only [member?_append, member?_cons, member?_nil, member?_optionalMember,
      String.reduceEq, if_true, if_false, Option.none_or, Option.or_none, Option.map_id, id]

end Object

section Check

/-- A field with one of the words for it has no fault. -/
theorem unknownWord?_eq_none {α : Type} {name : String} {words : List (String × α)}
    (h : ∀ s, v.member? name = some (.string s) → (words.lookup s).isSome = true) :
    unknownWord? v name words = none := by
  rw [unknownWord?]
  split
  · rename_i s hs
    rw [if_pos (h s hs)]
  · rfl

/-- A field with a word, if anything, has no fault. -/
theorem notANumber?_eq_none {name : String} {o : Option Nat}
    (hmember : v.member? name = o.map Json.ofNat) (h : ∀ n, o = some n → n < wordLimit) :
    notANumber? v name = none := by
  rw [notANumber?, hmember]
  cases o with
  | none => rfl
  | some n => simp only [Option.map_some, nat?_ofNat (h n rfl), Option.isSome_some, if_true]

/-- A text with three parts is a trace id. -/
theorem badTraceId?_eq_none {s : String} (hmember : v.member? "trace_id" = some (.string s))
    (h : 2 ≤ Text.doubleColons s.toList) : badTraceId? v = none := by
  rw [badTraceId?, hmember]
  simp only
  rw [if_neg (Nat.not_lt.2 h)]

/-- An object that holds an entry has no faults. -/
theorem objectFaults_eq_nil (hv : Holds v e) (h : e.Loggable)
    (htrace : 2 ≤ Text.doubleColons e.traceId.toList) : objectFaults v = [] := by
  have hlevel : unknownWord? v "level" Level.words = none := unknownWord?_eq_none fun s hs => by
    rw [hv.level, Option.some.injEq, Json.string.injEq] at hs
    rw [← hs, Level.lookup_name, Option.isSome_some]
  have houtcome : unknownWord? v "outcome" Outcome.words = none :=
    unknownWord?_eq_none fun s hs => by
      rw [hv.outcome, Option.map_eq_some_iff] at hs
      rcases hs with ⟨o, _, ho⟩
      rw [← Json.string.inj ho, Outcome.lookup_name, Option.isSome_some]
  have hstream : unknownWord? v "stream" Stream.words = none := unknownWord?_eq_none fun s hs => by
    rw [hv.stream, Option.map_eq_some_iff] at hs
    rcases hs with ⟨stream, _, hstream⟩
    rw [← Json.string.inj hstream, Stream.lookup_name, Option.isSome_some]
  have hmissing : ["timestamp", "trace_id", "level", "event"].filterMap (missingField? v) = [] := by
    simp only [List.filterMap_cons, List.filterMap_nil, missingField?, hv.timestamp, hv.traceId,
      hv.level, hv.event, Option.isSome_some, if_true]
  have hnumbers : ["order", "seed", "row_count", "obligation_count", "duration_ms"].filterMap
      (notANumber? v) = [] := by
    simp only [List.filterMap_cons, List.filterMap_nil, notANumber?_eq_none hv.order h.order,
      notANumber?_eq_none hv.seed h.seed, notANumber?_eq_none hv.rowCount h.rowCount,
      notANumber?_eq_none hv.obligationCount h.obligationCount,
      notANumber?_eq_none hv.durationMs h.durationMs]
  rw [objectFaults, hmissing, hlevel, houtcome, hstream, hnumbers,
    badTraceId?_eq_none hv.traceId htrace]
  rfl

/-- An object that holds an entry is read as the entry. -/
theorem Entry.ofJson?_eq (hv : Holds v e) (h : e.Loggable) : ofJson? v = some e := by
  have hword {α : Type} {words : List (String × α)} {s : String} {a : α}
      (ha : words.lookup s = some a) : word? words (.string s) = some a ∧ Json.string s ≠ .null :=
    ⟨ha, by simp only [ne_eq, reduceCtorEq, not_false_eq_true]⟩
  have htext {name : String} {o : Option String} (hmember : v.member? name = o.map Json.string) :
      optionalField v name text? = some o := by
    rw [optionalField, hmember]
    exact optional_nullable?_map fun s _ =>
      ⟨rfl, by simp only [ne_eq, reduceCtorEq, not_false_eq_true]⟩
  have hnumber {name : String} {o : Option Nat} (hmember : v.member? name = o.map Json.ofNat)
      (hlt : ∀ n, o = some n → n < wordLimit) : optionalField v name nat? = some o := by
    rw [optionalField, hmember]
    exact optional_nullable?_map fun n hn =>
      ⟨nat?_ofNat (hlt n hn), by simp only [Json.ofNat, ne_eq, reduceCtorEq, not_false_eq_true]⟩
  have hstream : optionalField v "stream" (word? Stream.words) = some e.stream := by
    rw [optionalField, hv.stream]
    exact optional_nullable?_map fun s _ => hword s.lookup_name
  have houtcome : optionalField v "outcome" (word? Outcome.words) = some e.outcome := by
    rw [optionalField, hv.outcome]
    exact optional_nullable?_map fun o _ => hword o.lookup_name
  have hartifacts : optionalField v "artifact_refs" (list? text?) = some e.artifacts := by
    rw [optionalField, hv.artifacts]
    exact optional_nullable?_map fun texts _ =>
      ⟨list?_array_map fun _ _ => rfl, by simp only [textsToJson, ne_eq, reduceCtorEq,
        not_false_eq_true]⟩
  have hdetails : optionalField v "details" some = some e.details := by
    have hread : Json.optional none (nullable? some) (e.details.map id) = some e.details :=
      optional_nullable?_map fun d hd => ⟨rfl, (h.details d hd).1⟩
    rw [Option.map_id, id] at hread
    rw [optionalField, hv.details, hread]
  rw [ofJson?]
  simp only [hv.timestamp, hv.traceId, hv.level, hv.event, required, Option.bind_some, text?,
    (hword e.level.lookup_name).1, htext hv.campaign, hstream, htext hv.gate,
    hnumber hv.order h.order, hnumber hv.seed h.seed, houtcome, hnumber hv.rowCount h.rowCount,
    hnumber hv.obligationCount h.obligationCount, hnumber hv.durationMs h.durationMs, hartifacts,
    hdetails, Option.bind_eq_bind, Option.pure_def]

/-- A line is checked to the entry it was written for. -/
theorem checkLine_text (h : e.Loggable) (htrace : 2 ≤ Text.doubleColons e.traceId.toList)
    (number : Nat) : checkLine e.text number = .ok e := by
  have hholds := holds_canonical_toJson h
  have hobject : ∃ ms, canonical e.toJson = .object ms := ⟨_, rfl⟩
  rw [checkLine, checkText, e.parseStrict?_text h, Option.map_some]
  rcases hobject with ⟨ms, hms⟩
  rw [hms] at hholds ⊢
  simp only [checkObject, objectFaults_eq_nil hholds h htrace, Entry.ofJson?_eq hholds h]
  rfl

end Check

end RunLog

end Covering
