import GraphQLEngine.Proofs.Requests.Documents
import GraphQLEngine.Proofs.Requests.Merging
import GraphQLEngine.Proofs.Requests.Selection
import Mathlib

/-!
# Collection is exact

A validated operation has a field at a response path exactly where the document has an occurrence
with that path; the fields of a selection stand in the order of their first occurrences, each under
a name of its own; and every occurrence has the name and the arguments of the field at its path.

    scope.Gathers fields os                     the fields are those of the occurrences
    scope.Gathers fields os →  scope.Gathers [f] os'  →
      mergeField position fields f = .ok out  →  scope.Gathers out (os ++ os')
-/

namespace GraphQLEngine

namespace RequestField

variable {f g : RequestField} {n : String} {p q : List String}

theorem at?_append : f.at? (p ++ q) = (f.at? p).bind (·.at? q) := by
  induction p generalizing f with
  | nil => rfl
  | cons n p ih =>
    rw [List.cons_append, at?, at?]
    cases f.subfields.find? (·.outputName = n) with
    | none => rfl
    | some sub => exact ih

/-- There is a field at a path whose last name is selected at what comes before it. -/
theorem at?_isSome_iff : (f.at? (p ++ [n])).isSome ↔ n ∈ f.names p := by
  rw [at?_append, names]
  cases f.at? p with
  | none => simp
  | some g =>
    rw [Option.bind_some, Option.map_some, Option.getD_some]
    have single : g.at? [n] = g.subfields.find? (·.outputName = n) := by
      rw [at?]
      cases g.subfields.find? (·.outputName = n) <;> rfl
    rw [single, Option.isSome_iff_ne_none, ne_eq, find?_outputName_eq_none, not_not]

end RequestField

namespace Request

open RequestField

/-! ## Fields of occurrences -/

/-- The occurrence has the name and the arguments of the field. -/
def Scope.Agrees (scope : Scope) (f : RequestField) (o : Occurrence) : Prop :=
  o.head.name = f.name ∧ ∃ args, scope.arguments? o = some args ∧ Json.Same f.arguments args

/-- The fields are those of the occurrences, whose paths start at them. -/
structure Scope.Gathers (scope : Scope) (fields : List RequestField) (os : List Occurrence) :
    Prop where
  names : ∀ p, (whole fields).names p = (children p os).eraseDups
  agrees : ∀ n p f, (whole fields).at? (n :: p) = some f →
    ∀ o ∈ os, o.path = n :: p → scope.Agrees f o
  /-- The arguments of a field are those of one of its occurrences. -/
  source : ∀ n p f, (whole fields).at? (n :: p) = some f →
    ∃ o ∈ os, o.path = n :: p ∧ scope.arguments? o = some f.arguments

namespace Scope.Gathers

variable {scope : Scope} {fields gs out : List RequestField} {os os' : List Occurrence}

theorem nil : scope.Gathers [] [] := ⟨fun _ => names_whole_nil, nofun, nofun⟩

theorem tidy (h : scope.Gathers fields os) : (whole fields).Tidy := fun p =>
  h.names p ▸ nodup_eraseDups _

theorem isSome_iff (h : scope.Gathers fields os) {p : List String} (ne : p ≠ []) :
    ((whole fields).at? p).isSome ↔ ∃ o ∈ os, o.path = p := by
  rw [← List.dropLast_append_getLast ne, at?_isSome_iff, h.names, List.mem_eraseDups, mem_children]

/-- Merged fields are those of the occurrences of both, in this order. -/
theorem merge (h : scope.Gathers fields os) (h' : scope.Gathers gs os')
    (merged : Merged (whole fields) (whole gs) (whole out)) : scope.Gathers out (os ++ os') where
  names p := by
    rw [merged.names, h.names, h'.names, eraseDups_append_left, eraseDups_append_right,
      children_append]
  agrees n p f found o mem path := by
    have label := merged.label (n :: p)
    rw [found, Option.map_some] at label
    cases old : (whole fields).at? (n :: p) with
    | some e =>
      rw [old, Option.map_some, Option.some_or, Option.some.injEq] at label
      have name : f.name = e.name := congrArg Prod.fst label
      have arguments : f.arguments = e.arguments := congrArg Prod.snd label
      rw [Agrees, name, arguments]
      rcases List.mem_append.mp mem with mem | mem
      · exact h.agrees n p e old o mem path
      · obtain ⟨g, new⟩ := Option.isSome_iff_exists.mp
          ((h'.isSome_iff (List.cons_ne_nil n p)).mpr ⟨o, mem, path⟩)
        obtain ⟨sameName, args, ok, same⟩ := h'.agrees n p g new o mem path
        obtain ⟨names, equal⟩ := merged.alike (n :: p) e g old new
        exact ⟨sameName.trans names.symm, args, ok, Json.Same.trans (.inr equal) same⟩
    | none =>
      have mem : o ∈ os' := by
        refine (List.mem_append.mp mem).resolve_left fun mem => ?_
        have := (h.isSome_iff (List.cons_ne_nil n p)).mpr ⟨o, mem, path⟩
        rw [old] at this
        cases this
      rw [old, Option.map_none, Option.none_or] at label
      obtain ⟨g, new, eq⟩ := Option.map_eq_some_iff.mp label.symm
      have name : f.name = g.name := (congrArg Prod.fst eq).symm
      have arguments : f.arguments = g.arguments := (congrArg Prod.snd eq).symm
      rw [Agrees, name, arguments]
      exact h'.agrees n p g new o mem path
  source n p f found := by
    have label := merged.label (n :: p)
    rw [found, Option.map_some, eq_comm, Option.or_eq_some_iff] at label
    rcases label with label | ⟨-, label⟩
    · obtain ⟨e, old, eq⟩ := Option.map_eq_some_iff.mp label
      obtain ⟨o, mem, path, ok⟩ := h.source n p e old
      exact ⟨o, List.mem_append_left _ mem, path, ok.trans (congrArg (some ·.2) eq)⟩
    · obtain ⟨g, new, eq⟩ := Option.map_eq_some_iff.mp label
      obtain ⟨o, mem, path, ok⟩ := h'.source n p g new
      exact ⟨o, List.mem_append_right _ mem, path, ok.trans (congrArg (some ·.2) eq)⟩

theorem add {f : RequestField} {position : Position} (h : scope.Gathers fields os)
    (new : scope.Gathers [f] os') (merged : mergeField position fields f = .ok out) :
    scope.Gathers out (os ++ os') :=
  h.merge new (mergeField_merged f merged h.tidy new.tidy)

/-- A field is that of its own occurrence and of those of its selections. -/
theorem field {f : RequestField} {container : Option SchemaType} {head : FieldHead}
    {beneath : List Occurrence} (h : scope.Gathers f.subfields beneath)
    (deeper : ∀ o ∈ beneath, o.path ≠ []) (outputName : f.outputName = head.outputName)
    (name : head.name = f.name)
    (arguments : scope.arguments? ⟨[], container, head⟩ = some f.arguments) :
    scope.Gathers [f]
      ((⟨[], container, head⟩ :: beneath).map (Occurrence.into head.outputName)) where
  names p := by
    cases p with
    | nil =>
      have own : children [] ((⟨[], container, head⟩ :: beneath).map
          (Occurrence.into head.outputName)) =
          head.outputName :: children [] (beneath.map (Occurrence.into head.outputName)) := rfl
      rw [own, children_nil_into deeper, ← outputName]
      rfl
    | cons n p =>
      by_cases same : head.outputName = n
      · subst same
        rw [children_into_self, children_own, ← outputName, names_singleton_self, ← names_whole,
          h.names]
      · rw [children_into_of_ne same, names_whole_cons_of_none
          (find?_singleton_of_ne (outputName ▸ same)), List.eraseDups_nil]
  agrees n p g found o mem path := by
    obtain ⟨o, inside, rfl⟩ := List.mem_map.mp mem
    obtain ⟨rfl, below⟩ := List.cons.inj path
    rw [at?_whole_cons, ← outputName, find?_singleton_self, Option.bind_some] at found
    rcases List.mem_cons.mp inside with rfl | inside
    · cases below
      cases found
      exact ⟨name, f.arguments, arguments, .inl rfl⟩
    · obtain ⟨m, q, rfl⟩ := List.exists_cons_of_ne_nil (below ▸ deeper o inside)
      exact h.agrees m q g found o inside below
  source n p g found := by
    by_cases same : f.outputName = n
    · subst same
      rw [at?_whole_cons, find?_singleton_self, Option.bind_some] at found
      cases p with
      | nil =>
        cases found
        exact ⟨_, List.mem_map_of_mem List.mem_cons_self, by rw [outputName]; rfl, arguments⟩
      | cons m q =>
        obtain ⟨o, mem, path, ok⟩ := h.source m q g found
        refine ⟨_, List.mem_map_of_mem (List.mem_cons_of_mem _ mem), ?_, ok⟩
        rw [Occurrence.into, path, outputName]
    · rw [at?_whole_cons_of_none (find?_singleton_of_ne same)] at found
      cases found

end Scope.Gathers

/-! ## Collecting -/

/-- What expands adds the occurrences of the selections. -/
theorem Scope.Expands.gathers {scope : Scope} {container : SchemaType} {depth : Nat}
    {fields out : List RequestField} {selections : List Selection} {before : List Occurrence}
    (h : scope.Expands container depth fields selections out)
    (gathered : scope.Gathers fields before) :
    ∃ os, scope.Unfolds (some container) selections os ∧ scope.Gathers out (before ++ os) := by
  induction h generalizing before with
  | nil => exact ⟨[], .nil, by rwa [List.append_nil]⟩
  | excluded decided _ ih =>
    obtain ⟨os, unfolds, gathered⟩ := ih gathered
    exact ⟨os, .excluded (fun all => nomatch (includes_iff decided).mpr all) unfolds, gathered⟩
  | @typename container depth fields mid out head rest included _ typename plain merged _ ih =>
    have arguments : scope.arguments? ⟨[], some container, head⟩ = some [] := by
      rw [Scope.arguments?, if_pos typename, typenameSelection, plain]
      rfl
    have new := Scope.Gathers.field (f := ⟨head.alias?, head.name, [], []⟩) .nil
      (fun _ mem => absurd mem List.not_mem_nil) rfl rfl arguments
    obtain ⟨os, unfolds, gathered⟩ := ih (gathered.add new merged)
    exact ⟨_, .field ((includes_iff included).mp rfl) .nil unfolds, by rwa [← List.append_assoc]⟩
  | @field container type depth fields mid out subfields head selections rest d arguments included
      _ declared resolved _ checked merged _ ih ih' =>
    obtain ⟨hd, htype⟩ := Scope.resolveField_ok resolved
    have defined : definition? (some container) head = some d := hd
    have typed : scope.typeOf (some container) head = some type := by
      rw [Scope.typeOf, defined]
      exact htype
    have accepted : scope.arguments? ⟨[], some container, head⟩ = some arguments := by
      rw [Scope.arguments?, if_neg declared, defined, Option.bind_some, checked]
      rfl
    obtain ⟨beneath, inside, gathers⟩ := ih .nil
    rw [List.nil_append] at gathers
    have new := Scope.Gathers.field (f := ⟨head.alias?, head.name, arguments, subfields⟩) gathers
      inside.path_ne_nil rfl rfl accepted
    obtain ⟨os, unfolds, gathered⟩ := ih' (gathered.add new merged)
    exact ⟨_, .field ((includes_iff included).mp rfl) (typed ▸ inside) unfolds,
      by rwa [← List.append_assoc]⟩
  | @contents container depth fields mid out s condition inside rest included found _ _ _ ih ih' =>
    obtain ⟨os, unfolds, gathered⟩ := ih gathered
    obtain ⟨os', others, gathered⟩ := ih' gathered
    rw [List.append_assoc] at gathered
    refine ⟨os ++ os', ?_, gathered⟩
    have includes := (includes_iff included).mp rfl
    cases s with
    | field => cases found
    | spread position name directives =>
      obtain ⟨fragment, defined, eq⟩ := Option.map_eq_some_iff.mp found
      cases eq
      exact .spread includes defined unfolds others
    | inlineFragment =>
      cases found
      exact .inlineFragment includes unfolds others

/-! ## The contract -/

/-- The fields are exactly those that the occurrences ask for. -/
structure Scope.Collects (scope : Scope) (os : List Occurrence) (fields : List RequestField) :
    Prop where
  /-- There is a field at a path exactly where there is an occurrence. -/
  reached : ∀ p ≠ [], ((whole fields).at? p).isSome ↔ ∃ o ∈ os, o.path = p
  distinct : (whole fields).Distinct
  /-- The fields beneath a path stand in the order of the first occurrences of their names. -/
  ordered : ∀ p f, (whole fields).at? p = some f →
    f.subfields.map outputName = (children p os).eraseDups
  agrees : ∀ p ≠ [], ∀ f, (whole fields).at? p = some f →
    ∀ o ∈ os, o.path = p → scope.Agrees f o

theorem Scope.Gathers.collects {scope : Scope} {os : List Occurrence} {fields : List RequestField}
    (h : scope.Gathers fields os) : scope.Collects os fields where
  reached _ ne := h.isSome_iff ne
  distinct := h.tidy.distinct
  ordered p f found := by
    have all := h.names p
    rw [RequestField.names, found] at all
    exact all
  agrees p ne f found o mem path := by
    obtain ⟨n, q, rfl⟩ := List.exists_cons_of_ne_nil ne
    exact h.agrees n q f found o mem path

/-- The operation that is run, and the scope that its selections are collected in. -/
inductive Chooses (schema : Schema) (limit : Option Nat) (document : Document)
    (name : Option String) (supplied : OrderedMap Json) : Operation → Scope → Prop
  | intro {chosen : Option String} {o : Operation} {bindings : Variables} :
    chooseOperation document.operations name = .ok (chosen, o) →
      variableValues supplied o.variableDefinitions = .ok bindings →
      Chooses schema limit document name supplied o ⟨schema, bindings, document.fragments, limit⟩

/-- The type that the selections of an operation are made on. -/
def Scope.rootOf (scope : Scope) (o : Operation) : Option SchemaType :=
  (scope.schema.root? o.kind).bind scope.schema.type?

/-- The occurrences select the same field, with arguments that are valid and equal. -/
def Scope.Compatible (scope : Scope) (a b : Occurrence) : Prop :=
  a.head.name = b.head.name ∧ ∃ as bs, scope.arguments? a = some as ∧
    scope.arguments? b = some bs ∧ Json.Same as bs

section

variable {schema : Schema} {limit : Option Nat} {document : Document} {name : Option String}
  {supplied : OrderedMap Json}

theorem Chooses.unique {o o' : Operation} {scope scope' : Scope}
    (h : Chooses schema limit document name supplied o scope)
    (h' : Chooses schema limit document name supplied o' scope') : o = o' ∧ scope = scope' := by
  obtain ⟨chosen, bound⟩ := h
  obtain ⟨chosen', bound'⟩ := h'
  cases chosen.symm.trans chosen'
  cases bound.symm.trans bound'
  exact ⟨rfl, rfl⟩

/-- The arguments of the occurrences of a proper document are proper. -/
theorem Chooses.arguments?_proper {o : Operation} {scope : Scope} {a : Occurrence}
    {args : OrderedMap Json} (h : Chooses schema limit document name supplied o scope)
    (proper : document.Proper) (values : ∀ entry ∈ supplied, entry.2.Proper)
    (occurs : scope.Occurs (scope.rootOf o) o.selections a)
    (ok : scope.arguments? a = some args) : Json.ProperMap args := by
  obtain ⟨chosen, bound⟩ := h
  have operation := chooseOperation_proper chosen proper.operations
  exact Scope.arguments?_proper ok
    (variableValues_proper bound values operation.variableDefinitions)
    (occurs.proper proper.fragments operation.selections)

theorem ofDocument_gathers {r : Request}
    (h : ofDocument schema limit document name supplied = .ok r) :
    ∃ o scope os, Chooses schema limit document name supplied o scope ∧
      scope.Unfolds (scope.rootOf o) o.selections os ∧ scope.Gathers r.fields os := by
  obtain ⟨⟨chosen, o⟩, hchosen, h⟩ := bind_ok h
  simp only [ofOperation] at h
  split at h
  · next container found =>
    obtain ⟨bindings, hbound, h⟩ := bind_ok h
    obtain ⟨fields, collected, h⟩ := bind_ok h
    obtain ⟨os, unfolds, gathers⟩ :=
      (Scope.expands_of_collect _ container 1 [] [] o.selections collected).gathers .nil
    rw [List.nil_append] at gathers
    refine ⟨o, _, os, .intro hchosen hbound, ?_, ?_⟩
    · rw [Scope.rootOf, found]
      exact unfolds
    · split at h
      · obtain ⟨_, refused, -⟩ := bind_ok h
        cases refused
      · cases h
        exact gathers
  · cases h

end

/-- A request that passes validation has exactly the fields that its document asks for.  A document
that asks for different fields, or for different arguments, at one path does not pass; the values
are to be proper here, as all are that are read from a text (`Document.parse_proper`,
`Json.parse?_proper`). -/
theorem collection_exact (schema : Schema) (limit : Option Nat) (document : Document)
    (name : Option String) (supplied : OrderedMap Json) :
    (∀ r, ofDocument schema limit document name supplied = .ok r →
      ∃ o scope os, Chooses schema limit document name supplied o scope ∧
        scope.Unfolds (scope.rootOf o) o.selections os ∧ scope.Collects os r.fields) ∧
    (document.Proper → (∀ entry ∈ supplied, entry.2.Proper) →
      ∀ o scope, Chooses schema limit document name supplied o scope →
      ∀ a b, scope.Occurs (scope.rootOf o) o.selections a →
        scope.Occurs (scope.rootOf o) o.selections b → a.path = b.path →
        ¬ scope.Compatible a b →
        ∃ fault, ofDocument schema limit document name supplied = .error fault) := by
  refine ⟨fun r ok => ?_, fun proper values o scope chooses a b ha hb path differ => ?_⟩
  · obtain ⟨o, scope, os, chooses, unfolds, gathers⟩ := ofDocument_gathers ok
    exact ⟨o, scope, os, chooses, unfolds, gathers.collects⟩
  · cases result : ofDocument schema limit document name supplied with
    | error fault => exact ⟨fault, rfl⟩
    | ok r =>
      obtain ⟨o', scope', os, chooses', unfolds, gathers⟩ := ofDocument_gathers result
      obtain ⟨rfl, rfl⟩ := chooses.unique chooses'
      have memA := unfolds.mem_iff.mpr ha
      have memB := unfolds.mem_iff.mpr hb
      obtain ⟨n, p, start⟩ := List.exists_cons_of_ne_nil (unfolds.path_ne_nil a memA)
      obtain ⟨f, found⟩ := Option.isSome_iff_exists.mp
        ((gathers.isSome_iff (List.cons_ne_nil n p)).mpr ⟨a, memA, start⟩)
      obtain ⟨nameA, as, okA, sameA⟩ := gathers.agrees n p f found a memA start
      obtain ⟨nameB, bs, okB, sameB⟩ := gathers.agrees n p f found b memB (path.symm.trans start)
      -- the comparison goes from the first occurrence to the others, so it is turned around once
      obtain ⟨c, memC, -, okC⟩ := gathers.source n p f found
      have properC := chooses.arguments?_proper proper values (unfolds.mem_iff.mp memC) okC
      exact absurd ⟨nameA.trans nameB.symm, as, bs, okA, okB, (sameA.symm properC).trans sameB⟩
        differ

/-! ## Members -/

namespace Club

def schema : Schema :=
  ⟨⟨[("Int", ⟨"Int", .scalar .int⟩), ("String", ⟨"String", .scalar .string⟩),
      ("Boolean", ⟨"Boolean", .scalar .boolean⟩),
      ("Query", ⟨"Query", .object
        [("member", (FieldDefinition.of "member" (.named "Member")).withArgument
          ⟨"id", .named "Int", none⟩)]⟩),
      ("Member", ⟨"Member", .object
        [("name", .of "name" (.named "String")), ("age", .of "age" (.named "Int"))]⟩)],
      by decide⟩,
    "Query", none, none⟩

def leaf (name : String) : FieldHead := ⟨.nowhere, none, name, [], []⟩

def member (alias? : Option String) (id : Int) (directives : List Directive) : FieldHead :=
  ⟨.nowhere, alias?, "member", [⟨"id", .nowhere, .number (.int id)⟩], directives⟩

def unlessQuiet : Directive := ⟨.nowhere, "skip", [⟨"if", .nowhere, .variable "quiet"⟩]⟩

/-- The operation
`query ($quiet: Boolean) { me: member(id: 1) { name } ...Details member(id: 2) @skip(if: $quiet) }`,
the last field in an inline fragment. -/
def operation : Operation :=
  ⟨.nowhere, .query, [⟨"quiet", .nowhere, .named "Boolean", none⟩], [], [
    .field (member (some "me") 1 []) [.field (leaf "name") []],
    .spread .nowhere "Details" [],
    .inlineFragment .nowhere none [] [.field (member none 2 [unlessQuiet]) []]]⟩

/-- The fragment `Details on Query { me: member(id: …) { age name } }`. -/
def details (id : Int) : Fragment :=
  ⟨.nowhere, "Details", "Query",
    [.field (member (some "me") id []) [.field (leaf "age") [], .field (leaf "name") []]]⟩

def document (id : Int) : Document := ⟨.anonymous operation, [details id]⟩

def scope (id : Int) : Scope := ⟨schema, [("quiet", .boolean true)], [details id], none⟩

/-- What the fragment selects. -/
def inside (id : Int) : List Occurrence :=
  [⟨["me"], (scope id).rootOf operation, member (some "me") id []⟩,
    ⟨["me", "age"], schema.type? "Member", leaf "age"⟩,
    ⟨["me", "name"], schema.type? "Member", leaf "name"⟩]

def occurrences (id : Int) : List Occurrence :=
  [⟨["me"], (scope id).rootOf operation, member (some "me") 1 []⟩,
    ⟨["me", "name"], schema.type? "Member", leaf "name"⟩] ++ (inside id ++ [])

def merged : Request :=
  ⟨none, .query, [⟨some "me", "member", [("id", .int 1)],
    [⟨none, "name", [], []⟩, ⟨none, "age", [], []⟩]⟩]⟩

theorem validated :
    ofDocument schema none (document 1) none [("quiet", .bool true)] = .ok merged := by cbv

theorem chooses (id : Int) :
    Chooses schema none (document id) none [("quiet", .bool true)] operation (scope id) :=
  .intro rfl rfl

theorem unfolds (id : Int) : (scope id).Unfolds ((scope id).rootOf operation) operation.selections
    (occurrences id) := by
  have plain : (scope id).Includes [] := fun _ mem => nomatch mem
  have quiet : ¬ (scope id).Includes [unlessQuiet] := fun all =>
    nomatch (all unlessQuiet List.mem_cons_self).1 rfl
  have fragment : (scope id).Unfolds ((scope id).rootOf operation) (details id).selections
      (inside id) := .field plain (.field plain .nil (.field plain .nil .nil)) .nil
  have rest : (scope id).Unfolds ((scope id).rootOf operation) (operation.selections.drop 1)
      (inside id ++ []) :=
    .spread plain rfl fragment (.inlineFragment plain
      (.excluded (s := .field (member none 2 [unlessQuiet]) []) quiet .nil) .nil)
  exact .field plain (.field plain .nil .nil) rest

theorem properHead_member (alias? : Option String) (id : Int) (directives : List Directive) :
    ProperHead (member alias? id directives) :=
  List.forall_mem_singleton.mpr (.number _)

theorem properHead_leaf (name : String) : ProperHead (leaf name) := fun _ mem => nomatch mem

theorem proper (id : Int) : (document id).Proper := by
  have plain (name : String) : (Selection.field (leaf name) []).Proper :=
    .field (properHead_leaf name) fun _ mem => nomatch mem
  refine ⟨⟨List.forall_mem_singleton.mpr nofun, ?_⟩, List.forall_mem_singleton.mpr ?_⟩
  · simp only [operation, List.forall_mem_cons]
    exact ⟨.field (properHead_member _ _ _) (List.forall_mem_singleton.mpr (plain "name")),
      .spread _ _ _, .inlineFragment _ _ _ (List.forall_mem_singleton.mpr
        (.field (properHead_member _ _ _) fun _ mem => nomatch mem)), fun _ mem => nomatch mem⟩
  · exact List.forall_mem_singleton.mpr (.field (properHead_member _ _ _)
      (List.forall_mem_cons.mpr ⟨plain "age", List.forall_mem_singleton.mpr (plain "name")⟩))

/-- The member is asked for twice: the selections are merged, but only for one member. -/
theorem collection_exact_club :
    (∃ os, os.map Occurrence.path =
        [["me"], ["me", "name"], ["me"], ["me", "age"], ["me", "name"]] ∧
      (scope 1).Collects os merged.fields) ∧
    ∃ fault, ofDocument schema none (document 2) none [("quiet", .bool true)] = .error fault := by
  constructor
  · obtain ⟨o, scope', os, chooses', unfolds', collects⟩ :=
      (collection_exact schema none (document 1) none _).1 merged validated
    obtain ⟨rfl, rfl⟩ := (chooses 1).unique chooses'
    cases unfolds'.unique (unfolds 1)
    exact ⟨_, rfl, collects⟩
  · have occurs (o : Occurrence) (mem : o ∈ occurrences 2) := (unfolds 2).mem_iff.mp mem
    refine (collection_exact schema none (document 2) none _).2 (proper 2)
      (List.forall_mem_singleton.mpr (.bool true)) operation (scope 2) (chooses 2)
      _ _ (occurs _ List.mem_cons_self)
      (occurs _ (List.mem_cons_of_mem _ (List.mem_cons_of_mem _ List.mem_cons_self))) rfl ?_
    rintro ⟨-, as, bs, ha, hb, same⟩
    have first : (scope 2).arguments? ⟨["me"], (scope 2).rootOf operation, member (some "me") 1 []⟩ =
      some [("id", .int 1)] := by cbv
    have second : (scope 2).arguments? ⟨["me"], (scope 2).rootOf operation, member (some "me") 2 []⟩ =
      some [("id", .int 2)] := by cbv
    cases ha.symm.trans first
    cases hb.symm.trans second
    rcases same with same | same
    · cases same
    · cases same

end Club

end Request

end GraphQLEngine
