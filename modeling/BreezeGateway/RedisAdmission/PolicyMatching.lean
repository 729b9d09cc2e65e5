import BreezeGateway.Http.Pattern
import BreezeGateway.RedisAdmission.Policy

/-!
# What a policy says about a path

`CompiledPolicy::api` against a direct reading of the rules.  The route indexes are those of any
router that compares segments and selects the first declared match.
-/

namespace BreezeGateway

open SegmentPattern

/-- A `:name` segment and a last `*name` segment. -/
def routeMarks : Marks Char := ⟨'/', ':', '*'⟩

def routeAccepts (pattern path : String) : Bool :=
  routeMarks.accepts pattern.toList path.toList

/-- What `brz_http_router` documents of rules that ask for no method and have equal rank. -/
structure Router.ComparesSegments {Index : Type} (router : Router Index) : Prop where
  isMatch : ∀ rules index method path, router.compile rules = .ok index →
    (∀ rule ∈ rules, rule.methods = []) → path.toList.head? = some '/' →
    router.isMatch index method path = rules.any fun rule => routeAccepts rule.path path
  selected : ∀ rules index method path, router.compile rules = .ok index →
    (∀ rule ∈ rules, rule.methods = [] ∧ rule.rank = 0) → path.toList.head? = some '/' →
    router.selected index method path = rules.findIdx? fun rule => routeAccepts rule.path path

/-! ## The direct reading -/

namespace PathRule

def isExact (rule : PathRule) : Bool := decide (rule.kind = .exact)

def accepts (rule : PathRule) (path : String) : Bool :=
  match rule.kind with
  | .exact => routeAccepts rule.path path
  | .prefixed =>
      let base := Policy.trimSlashes rule.path
      path == (if base = "" then "/" else base) || (base ++ "/").toList.isPrefixOf path.toList

/-- A path that goes on within a segment is not accepted. -/
theorem accepts_within_segment {rule : PathRule} {path : String} {c : Char} {rest : List Char}
    (hkind : rule.kind = .prefixed) (hbase : Policy.trimSlashes rule.path ≠ "")
    (hpath : path.toList = (Policy.trimSlashes rule.path).toList ++ c :: rest) (hc : c ≠ '/') :
    rule.accepts path = false := by
  simp only [accepts, hkind, if_neg hbase, Bool.or_eq_false_iff]
  constructor
  · apply beq_eq_false_iff_ne.mpr
    rintro rfl
    simpa using congrArg List.length hpath
  · rw [Bool.eq_false_iff]
    intro hstarts
    rw [List.isPrefixOf_iff_prefix, String.toList_append, hpath,
      List.prefix_append_right_inj] at hstarts
    obtain ⟨suffix, hsuffix⟩ := hstarts
    exact hc (List.cons.inj hsuffix).1.symm

end PathRule

/-- The field that the rules give to a path. -/
def PolicyConfig.api (config : PolicyConfig) (path : String) : Option String :=
  if config.caseLimit = some 0 ∨ config.excludes.any (·.accepts path) then none
  else if config.includes ≠ [] ∧ ¬ config.includes.any (·.accepts path) then none
  else
    match (config.includes.filter (·.isExact)).find? (·.accepts path) with
    | some rule => some rule.path
    | none => some path

/-- The order of the rules counts among the exact includes only, and repetitions never do. -/
theorem PolicyConfig.api_congr {config config' : PolicyConfig} (path : String)
    (hlimit : config.caseLimit = config'.caseLimit)
    (hexact : config.includes.filter (·.isExact) = config'.includes.filter (·.isExact))
    (hincludes : ∀ rule, rule ∈ config.includes ↔ rule ∈ config'.includes)
    (hexcludes : ∀ rule, rule ∈ config.excludes ↔ rule ∈ config'.excludes) :
    config.api path = config'.api path := by
  have hany : ∀ rules rules' : List PathRule, (∀ rule, rule ∈ rules ↔ rule ∈ rules') →
      rules.any (·.accepts path) = rules'.any (·.accepts path) := by
    intro rules rules' h
    rw [Bool.eq_iff_iff, List.any_eq_true, List.any_eq_true]
    exact exists_congr fun rule => and_congr_left fun _ => h rule
  have hempty : config.includes = [] ↔ config'.includes = [] := by
    rw [List.eq_nil_iff_forall_not_mem, List.eq_nil_iff_forall_not_mem]
    exact forall_congr' fun rule => not_congr (hincludes rule)
  unfold PolicyConfig.api
  rw [hlimit, hany _ _ hincludes, hany _ _ hexcludes, hexact]
  simp only [ne_eq, hempty]

/-! ## Compiled rules -/

namespace CompiledPolicy

open Policy

/-- The routes of a prefix: itself, and everything below it. -/
def prefixRoutes (path : String) : List IndexedRouteRule :=
  let base := trimSlashes path
  [indexed (if base = "" then "/" else base), indexed (base ++ "/*__breeze_policy_path")]

def routes (rule : PathRule) : List IndexedRouteRule :=
  match rule.kind with
  | .exact => [indexed rule.path]
  | .prefixed => prefixRoutes rule.path

/-- What `add_prefix` checks of a path. -/
def IsLiteral (path : String) : Prop :=
  ∀ segment ∈ path.toList.splitOn '/', routeMarks.Literal segment

def LiteralPrefixes (rules : List PathRule) : Prop :=
  ∀ rule ∈ rules, rule.kind = .prefixed → IsLiteral rule.path

theorem literal_of_isPattern {segment : List Char} (h : isPattern segment = false) :
    routeMarks.Literal segment := by
  cases segment with
  | nil =>
      constructor
      · nofun
      · nofun
  | cons c segment =>
      simp only [isPattern, Bool.or_eq_false_iff, beq_eq_false_iff_ne] at h
      constructor
      · rintro ⟨⟩
        exact h.1 rfl
      · rintro ⟨⟩
        exact h.2 rfl

theorem addPrefix_ok {rules rules' : List IndexedRouteRule} {path : String}
    (h : addPrefix rules path = .ok rules') : rules' = rules ++ prefixRoutes path ∧ IsLiteral path := by
  unfold addPrefix at h
  split at h
  · cases h
  · rename_i hcheck
    refine ⟨(Except.ok.inj h).symm, fun segment hsegment => literal_of_isPattern ?_⟩
    rw [← Bool.not_eq_true]
    intro hpattern
    exact hcheck (Or.inr (List.any_eq_true.mpr ⟨segment, hsegment, hpattern⟩))

variable {Index : Type} {lib : Libraries Index}

/-- The vectors after the loop over some includes. -/
structure IncludesOf (rules : List PathRule) (acc : Includes) : Prop where
  exact : acc.exact = (rules.filter (·.isExact)).map fun rule => indexed rule.path
  exactPaths : acc.exactPaths = (rules.filter (·.isExact)).map PathRule.path
  prefixes : acc.prefixes = (rules.filter (! ·.isExact)).flatMap fun rule => prefixRoutes rule.path
  literal : LiteralPrefixes rules

theorem LiteralPrefixes.concat {rules : List PathRule} {rule : PathRule} (h : LiteralPrefixes rules)
    (hrule : rule.kind = .prefixed → IsLiteral rule.path) : LiteralPrefixes (rules ++ [rule]) := by
  intro r hr
  rcases List.mem_append.mp hr with hr | hr
  · exact h r hr
  · obtain rfl := List.mem_singleton.mp hr
    exact hrule

theorem IncludesOf.step {rules : List PathRule} {rule : PathRule} {acc acc' : Includes}
    (h : IncludesOf rules acc) (hstep : addInclude lib acc rule = .ok acc') :
    IncludesOf (rules ++ [rule]) acc' := by
  unfold addInclude at hstep
  obtain ⟨-, -, hstep⟩ := except_bind_ok hstep
  cases hkind : rule.kind with
  | exact =>
      rw [hkind] at hstep
      obtain rfl := Except.ok.inj hstep
      refine ⟨?_, ?_, ?_, h.literal.concat fun hc => ?_⟩
      · simp [h.exact, PathRule.isExact, hkind]
      · simp [h.exactPaths, PathRule.isExact, hkind]
      · simp [h.prefixes, PathRule.isExact, hkind]
      · rw [hkind] at hc
        cases hc
  | prefixed =>
      rw [hkind] at hstep
      obtain ⟨prefixes, hstarts, hstep⟩ := except_bind_ok hstep
      obtain ⟨rfl, hliteral⟩ := addPrefix_ok hstarts
      obtain rfl := Except.ok.inj hstep
      refine ⟨?_, ?_, ?_, h.literal.concat fun _ => hliteral⟩
      · simp [h.exact, PathRule.isExact, hkind]
      · simp [h.exactPaths, PathRule.isExact, hkind]
      · simp [h.prefixes, PathRule.isExact, hkind]

theorem addExclude_ok {acc acc' : List IndexedRouteRule} {rule : PathRule}
    (h : addExclude lib acc rule = .ok acc') :
    acc' = acc ++ routes rule ∧ (rule.kind = .prefixed → IsLiteral rule.path) := by
  unfold addExclude at h
  obtain ⟨-, -, h⟩ := except_bind_ok h
  unfold routes
  cases hkind : rule.kind with
  | exact =>
      rw [hkind] at h
      obtain rfl := Except.ok.inj h
      exact ⟨rfl, nofun⟩
  | prefixed =>
      rw [hkind] at h
      obtain ⟨rfl, hliteral⟩ := addPrefix_ok h
      exact ⟨rfl, fun _ => hliteral⟩

structure CompiledFrom (lib : Libraries Index) (config : PolicyConfig)
    (policy : CompiledPolicy Index) : Prop where
  caseLimit : policy.caseLimit = config.caseLimit
  includesAll : policy.includesAll = config.includes.isEmpty
  exactPaths : policy.exactPaths = (config.includes.filter (·.isExact)).map PathRule.path
  exact : lib.compile ((config.includes.filter (·.isExact)).map fun rule => indexed rule.path) =
    .ok policy.exact
  prefixes : lib.compile
    ((config.includes.filter (! ·.isExact)).flatMap fun rule => prefixRoutes rule.path) =
      .ok policy.prefixes
  excludes : lib.compile (config.excludes.flatMap routes) = .ok policy.excludes
  literal : LiteralPrefixes config.includes ∧ LiteralPrefixes config.excludes

theorem compileIndex_ok {rules : List IndexedRouteRule} {index : Index}
    (h : compileIndex lib rules = .ok index) : lib.compile rules = .ok index := by
  unfold compileIndex at h
  split at h
  · cases h
  · rename_i index' hcompile
    obtain rfl := Except.ok.inj h
    exact hcompile

theorem compiledFrom_of_compile {config : PolicyConfig} {policy : CompiledPolicy Index}
    (h : compile lib config = .ok policy) : CompiledFrom lib config policy := by
  unfold compile at h
  split at h
  · cases h
  · obtain ⟨includes, hincludes, h⟩ := except_bind_ok h
    obtain ⟨excludes, hexcludes, h⟩ := except_bind_ok h
    obtain ⟨exact, hexact, h⟩ := except_bind_ok h
    obtain ⟨prefixes, hprefixes, h⟩ := except_bind_ok h
    obtain ⟨excluded, hexcluded, h⟩ := except_bind_ok h
    obtain rfl := Except.ok.inj h
    have hins : IncludesOf ([] ++ config.includes) includes :=
      except_foldlM_ok (fun rules rule acc acc' hacc hstep => IncludesOf.step hacc hstep)
        ⟨rfl, rfl, rfl, nofun⟩ hincludes
    have houts : excludes = ([] ++ config.excludes).flatMap routes ∧
        LiteralPrefixes ([] ++ config.excludes) := by
      refine except_foldlM_ok (P := fun rules acc => acc = rules.flatMap routes ∧
        LiteralPrefixes rules) ?_ ⟨rfl, nofun⟩ hexcludes
      rintro rules rule acc acc' ⟨rfl, hliteral⟩ hstep
      obtain ⟨rfl, hrule⟩ := addExclude_ok hstep
      exact ⟨by simp, hliteral.concat hrule⟩
    rw [List.nil_append] at hins houts
    have hexact' := compileIndex_ok hexact
    have hprefixes' := compileIndex_ok hprefixes
    have hexcluded' := compileIndex_ok hexcluded
    rw [hins.exact] at hexact'
    rw [hins.prefixes] at hprefixes'
    rw [houts.1] at hexcluded'
    exact ⟨rfl, rfl, hins.exactPaths, hexact', hprefixes', hexcluded', hins.literal, houts.2⟩

/-! ## Agreement -/

theorem trimSlashes_toList (path : String) :
    (trimSlashes path).toList = path.toList.rdropWhile (· == '/') := by
  unfold trimSlashes
  rw [String.toList_ofList]
  rfl

theorem routeAccepts_literal {pattern path : String} (h : IsLiteral pattern) :
    routeAccepts pattern path = decide (path = pattern) := by
  rw [Bool.eq_iff_iff, decide_eq_true_eq]
  exact (accepts_literal (m := routeMarks) h).trans String.toList_inj

/-- The two routes of a prefix accept what the prefix does. -/
theorem prefixRoutes_any {rule : PathRule} {path : String} (hkind : rule.kind = .prefixed)
    (hliteral : IsLiteral rule.path) :
    (prefixRoutes rule.path).any (fun route => routeAccepts route.path path) = rule.accepts path := by
  have hbase : IsLiteral (trimSlashes rule.path) := by
    unfold IsLiteral
    rw [trimSlashes_toList]
    exact literal_rdropWhile (m := routeMarks) hliteral
  have hself : IsLiteral (if trimSlashes rule.path = "" then "/" else trimSlashes rule.path) := by
    split
    · unfold IsLiteral Marks.Literal
      decide
    · exact hbase
  have hbelow : routeAccepts (trimSlashes rule.path ++ "/*__breeze_policy_path") path =
      (trimSlashes rule.path ++ "/").toList.isPrefixOf path.toList := by
    rw [Bool.eq_iff_iff, List.isPrefixOf_iff_prefix, routeAccepts, String.toList_append,
      String.toList_append]
    have hname : "*__breeze_policy_path".toList.head? = some routeMarks.rest := rfl
    exact accepts_rest hbase hname (by decide)
  simp only [prefixRoutes, List.any_cons, List.any_nil, Bool.or_false, indexed, PathRule.accepts,
    hkind, routeAccepts_literal hself, hbelow]
  rfl

theorem mem_prefixRoutes {route : IndexedRouteRule} {path : String} (h : route ∈ prefixRoutes path) :
    ∃ pattern, route = indexed pattern := by
  simp only [prefixRoutes, List.mem_cons, List.not_mem_nil, or_false] at h
  rcases h with rfl | rfl
  · exact ⟨_, rfl⟩
  · exact ⟨_, rfl⟩

theorem mem_routes {route : IndexedRouteRule} {rule : PathRule} (h : route ∈ routes rule) :
    ∃ pattern, route = indexed pattern := by
  unfold routes at h
  split at h
  · obtain rfl := List.mem_singleton.mp h
    exact ⟨_, rfl⟩
  · exact mem_prefixRoutes h

theorem routes_any {rule : PathRule} {path : String}
    (hliteral : rule.kind = .prefixed → IsLiteral rule.path) :
    (routes rule).any (fun route => routeAccepts route.path path) = rule.accepts path := by
  cases hkind : rule.kind with
  | exact => simp [routes, hkind, indexed, PathRule.accepts]
  | prefixed =>
      simp only [routes, hkind]
      exact prefixRoutes_any hkind (hliteral hkind)

section

variable {config : PolicyConfig} {policy : CompiledPolicy Index} {path : String}

theorem isMatch_of_routes (hrouter : lib.ComparesSegments) (hpath : path.toList.head? = some '/')
    {rules : List PathRule} {f : PathRule → List IndexedRouteRule} {index : Index}
    (hcompile : lib.compile (rules.flatMap f) = .ok index)
    (hindexed : ∀ rule route, route ∈ f rule → ∃ pattern, route = indexed pattern)
    (hany : ∀ rule ∈ rules,
      (f rule).any (fun route => routeAccepts route.path path) = rule.accepts path) :
    lib.isMatch index "GET" path = rules.any (·.accepts path) := by
  have hmethods : ∀ route ∈ rules.flatMap f, route.methods = [] := by
    intro route hroute
    obtain ⟨rule, -, hroute⟩ := List.mem_flatMap.mp hroute
    obtain ⟨pattern, rfl⟩ := hindexed rule route hroute
    rfl
  rw [hrouter.isMatch _ _ _ _ hcompile hmethods hpath, List.any_flatMap, Bool.eq_iff_iff,
    List.any_eq_true, List.any_eq_true]
  exact exists_congr fun rule => and_congr_right fun hrule => by rw [hany rule hrule]

theorem CompiledFrom.isMatch_excludes (h : CompiledFrom lib config policy)
    (hrouter : lib.ComparesSegments) (hpath : path.toList.head? = some '/') :
    lib.isMatch policy.excludes "GET" path = config.excludes.any (·.accepts path) :=
  isMatch_of_routes hrouter hpath h.excludes (fun _ _ => mem_routes) fun rule hrule =>
    routes_any (h.literal.2 rule hrule)

theorem CompiledFrom.isMatch_prefixes (h : CompiledFrom lib config policy)
    (hrouter : lib.ComparesSegments) (hpath : path.toList.head? = some '/') :
    lib.isMatch policy.prefixes "GET" path =
      (config.includes.filter (! ·.isExact)).any (·.accepts path) := by
  refine isMatch_of_routes hrouter hpath h.prefixes (fun _ _ => mem_prefixRoutes) ?_
  intro rule hrule
  obtain ⟨hmem, hexact⟩ := List.mem_filter.mp hrule
  have hkind : rule.kind = .prefixed := by
    cases hkind : rule.kind with
    | exact => simp [PathRule.isExact, hkind] at hexact
    | prefixed => rfl
  exact prefixRoutes_any hkind (h.literal.1 rule hmem hkind)

theorem CompiledFrom.selected_eq (h : CompiledFrom lib config policy)
    (hrouter : lib.ComparesSegments) (hpath : path.toList.head? = some '/') :
    lib.selected policy.exact "GET" path =
      (config.includes.filter (·.isExact)).findIdx? fun rule => routeAccepts rule.path path := by
  have hplain : ∀ route ∈ (config.includes.filter (·.isExact)).map fun rule => indexed rule.path,
      route.methods = [] ∧ route.rank = 0 := by
    intro route hroute
    obtain ⟨rule, -, rfl⟩ := List.mem_map.mp hroute
    exact ⟨rfl, rfl⟩
  rw [hrouter.selected _ _ _ _ h.exact hplain hpath, List.findIdx?_map]
  rfl

/-- The id of the selected route is the place of the first exact include that accepts. -/
theorem CompiledFrom.find_exact (h : CompiledFrom lib config policy)
    (hrouter : lib.ComparesSegments) (hpath : path.toList.head? = some '/') :
    (config.includes.filter (·.isExact)).find? (·.accepts path) =
      (lib.selected policy.exact "GET" path).bind ((config.includes.filter (·.isExact))[·]?) := by
  rw [h.selected_eq hrouter hpath, ← List.find?_eq_bind_findIdx?_getElem?]
  refine List.find?_congr fun rule hrule => ?_
  have hkind : rule.kind = .exact := by simpa [PathRule.isExact] using (List.mem_filter.mp hrule).2
  simp only [PathRule.accepts, hkind]

theorem any_accepts_of_find {rules : List PathRule} {rule : PathRule}
    (h : (rules.filter (·.isExact)).find? (·.accepts path) = some rule) :
    rules.any (·.accepts path) = true := by
  have haccepts := List.find?_some (p := (PathRule.accepts · path)) h
  have hmem := (List.mem_filter.mp (List.mem_of_find?_eq_some h)).1
  exact List.any_eq_true.mpr ⟨rule, hmem, haccepts⟩

theorem any_accepts_of_not_find {rules : List PathRule}
    (h : (rules.filter (·.isExact)).find? (·.accepts path) = none) :
    rules.any (·.accepts path) = (rules.filter (! ·.isExact)).any (·.accepts path) := by
  rw [List.any_filter, Bool.eq_iff_iff, List.any_eq_true, List.any_eq_true]
  refine exists_congr fun rule => and_congr_right fun hrule => ?_
  cases hexact : rule.isExact with
  | false => simp
  | true =>
      have hnot := List.find?_eq_none.mp h rule (List.mem_filter.mpr ⟨hrule, hexact⟩)
      simpa using hnot

theorem CompiledFrom.api_eq (h : CompiledFrom lib config policy) (hrouter : lib.ComparesSegments)
    (hpath : path.toList.head? = some '/') : policy.api lib path = config.api path := by
  have hfind := h.find_exact hrouter hpath
  unfold api PolicyConfig.api
  rw [h.caseLimit, h.isMatch_excludes hrouter hpath, h.isMatch_prefixes hrouter hpath,
    h.includesAll]
  split
  · rfl
  · cases hselected : lib.selected policy.exact "GET" path with
    | none =>
        rw [hselected, Option.bind_none] at hfind
        rw [hfind, any_accepts_of_not_find hfind]
        generalize (config.includes.filter (! ·.isExact)).any (·.accepts path) = below
        cases config.includes with
        | nil => simp
        | cons rule rules => cases below <;> simp
    | some id =>
        rw [hselected, Option.bind_some] at hfind
        have hlt : id < (config.includes.filter (·.isExact)).length := by
          rw [h.selected_eq hrouter hpath] at hselected
          exact (List.findIdx?_eq_some_iff_getElem.mp hselected).1
        rw [List.getElem?_eq_getElem hlt] at hfind
        rw [hfind, any_accepts_of_find hfind, h.exactPaths]
        simp [hlt]

end

/-- The matching of a compiled policy is the direct reading of its rules; a prefix does not accept
what only shares characters with it; the order and the repetition of prefixes do not count. -/
theorem api_eq_specification (hrouter : lib.ComparesSegments) :
    (∀ config policy path, compile lib config = .ok policy → path.toList.head? = some '/' →
      policy.api lib path = config.api path) ∧
    (∀ (rule : PathRule) (path : String) (c : Char) (rest : List Char), rule.kind = .prefixed →
      trimSlashes rule.path ≠ "" →
      path.toList = (trimSlashes rule.path).toList ++ c :: rest → c ≠ '/' →
      rule.accepts path = false) ∧
    (∀ config config' policy policy' path, compile lib config = .ok policy →
      compile lib config' = .ok policy' → path.toList.head? = some '/' →
      config.caseLimit = config'.caseLimit →
      config.includes.filter (·.isExact) = config'.includes.filter (·.isExact) →
      (∀ rule, rule ∈ config.includes ↔ rule ∈ config'.includes) →
      (∀ rule, rule ∈ config.excludes ↔ rule ∈ config'.excludes) →
      policy.api lib path = policy'.api lib path) := by
  refine ⟨fun config policy path h hpath => ?_, fun rule path c rest => ?_, ?_⟩
  · exact (compiledFrom_of_compile h).api_eq hrouter hpath
  · exact PathRule.accepts_within_segment
  · intro config config' policy policy' path h h' hpath hlimit hexact hincludes hexcludes
    rw [(compiledFrom_of_compile h).api_eq hrouter hpath,
      (compiledFrom_of_compile h').api_eq hrouter hpath]
    exact PolicyConfig.api_congr path hlimit hexact hincludes hexcludes

end CompiledPolicy

/-! ## The policy of the documentation -/

/-- Libraries over routes that are compared one after the other. -/
def segmentLibraries : Libraries (List IndexedRouteRule) where
  compile rules := .ok rules
  selected rules _ path := rules.findIdx? fun rule => routeAccepts rule.path path
  isMatch rules _ path := rules.any fun rule => routeAccepts rule.path path
  parseUri text := .ok ⟨none, none, ⟨text, none⟩⟩
  decodePolicy _ := .error "invalid policy"
  decodeAddress _ := none

theorem segmentLibraries_comparesSegments : segmentLibraries.ComparesSegments where
  isMatch := by
    rintro rules index method path ⟨⟩ - -
    rfl
  selected := by
    rintro rules index method path ⟨⟩ - -
    rfl

def documentedPolicy : PolicyConfig where
  caseLimit := some 200
  includes := [⟨"/api", .prefixed⟩, ⟨"/api/:id/xxx", .exact⟩]
  excludes := [⟨"/socket.io", .prefixed⟩]

theorem documentedPolicy_compiles :
    ∃ policy, CompiledPolicy.compile segmentLibraries documentedPolicy = .ok policy :=
  ⟨_, by rfl⟩

namespace CompiledPolicy

theorem api_eq_specification_documented :
    ∃ policy, compile segmentLibraries documentedPolicy = .ok policy ∧
      policy.api segmentLibraries "/api/123/xxx" = some "/api/:id/xxx" ∧
      policy.api segmentLibraries "/api/" = some "/api/" ∧
      policy.api segmentLibraries "/apix" = none := by
  obtain ⟨policy, hpolicy⟩ := documentedPolicy_compiles
  have hapi : ∀ path, path.toList.head? = some '/' →
      policy.api segmentLibraries path = documentedPolicy.api path := fun path hpath =>
    (api_eq_specification segmentLibraries_comparesSegments).1 _ _ path hpolicy hpath
  refine ⟨policy, hpolicy, ?_, ?_, ?_⟩
  · rw [hapi _ (by decide)]
    decide +kernel
  · rw [hapi _ (by decide)]
    decide +kernel
  · rw [hapi _ (by decide)]
    decide +kernel

/-! ## Counter fields -/

/-- A field is the text of an exact include that accepts the path, or the path itself, which then
no exact include accepts. -/
theorem field_cases {config : PolicyConfig} {path field : String}
    (h : config.api path = some field) :
    (∃ rule ∈ config.includes, rule.kind = .exact ∧ rule.path = field ∧
      routeAccepts field path = true) ∨
    (path = field ∧ ∀ rule ∈ config.includes, rule.kind = .exact →
      routeAccepts rule.path path = false) := by
  unfold PolicyConfig.api at h
  split at h
  · cases h
  · split at h
    · cases h
    · cases hfind : (config.includes.filter (·.isExact)).find? (·.accepts path) with
      | some rule =>
          rw [hfind] at h
          obtain rfl := Option.some.inj h
          obtain ⟨hmem, hexact⟩ := List.mem_filter.mp (List.mem_of_find?_eq_some hfind)
          have hkind : rule.kind = .exact := by simpa [PathRule.isExact] using hexact
          have haccepts := List.find?_some (p := (PathRule.accepts · path)) hfind
          simp only [PathRule.accepts, hkind] at haccepts
          exact Or.inl ⟨rule, hmem, hkind, rfl, haccepts⟩
      | none =>
          rw [hfind] at h
          refine Or.inr ⟨Option.some.inj h, fun rule hmem hkind => ?_⟩
          have hexact : rule.isExact = true := by simp [PathRule.isExact, hkind]
          have hnot := List.find?_eq_none.mp hfind rule (List.mem_filter.mpr ⟨hmem, hexact⟩)
          simpa only [PathRule.accepts, hkind, Bool.not_eq_true] using hnot

theorem not_literal_of_exact {config : PolicyConfig} {rule : PathRule} (hmem : rule ∈ config.includes)
    (hkind : rule.kind = .exact) :
    ¬ ∀ rule' ∈ config.includes, rule'.kind = .exact → routeAccepts rule'.path rule.path = false := by
  intro hnone
  have hself : routeAccepts rule.path rule.path = true := accepts_self _
  rw [hnone rule hmem hkind] at hself
  cases hself

/-- Two paths have one field only where both are accepted by the exact include of that text. -/
theorem api_field_shared {Index : Type} {lib : Libraries Index} (hrouter : lib.ComparesSegments)
    {config : PolicyConfig} {policy : CompiledPolicy Index} {path path' field : String}
    (hcompile : compile lib config = .ok policy) (hpath : path.toList.head? = some '/')
    (hpath' : path'.toList.head? = some '/') (hfield : policy.api lib path = some field)
    (hfield' : policy.api lib path' = some field) :
    path = path' ∨ ∃ rule ∈ config.includes, rule.kind = .exact ∧ rule.path = field ∧
      routeAccepts field path = true ∧ routeAccepts field path' = true := by
  rw [(compiledFrom_of_compile hcompile).api_eq hrouter hpath] at hfield
  rw [(compiledFrom_of_compile hcompile).api_eq hrouter hpath'] at hfield'
  rcases field_cases hfield with ⟨rule, hmem, hkind, rfl, haccepts⟩ | ⟨rfl, hnone⟩
  · rcases field_cases hfield' with ⟨-, -, -, -, haccepts'⟩ | ⟨rfl, hnone'⟩
    · exact Or.inr ⟨rule, hmem, hkind, rfl, haccepts, haccepts'⟩
    · exact absurd hnone' (not_literal_of_exact hmem hkind)
  · rcases field_cases hfield' with ⟨rule, hmem, hkind, rfl, -⟩ | ⟨rfl, -⟩
    · exact absurd hnone (not_literal_of_exact hmem hkind)
    · exact Or.inl rfl

/-- The text of a pattern counts as the pattern. -/
theorem api_field_shared_documented :
    ∃ policy, compile segmentLibraries documentedPolicy = .ok policy ∧
      policy.api segmentLibraries "/api/:id/xxx" = some "/api/:id/xxx" ∧
      policy.api segmentLibraries "/api/123/xxx" = some "/api/:id/xxx" ∧
      routeAccepts "/api/:id/xxx" "/api/:id/xxx" = true ∧
      routeAccepts "/api/:id/xxx" "/api/123/xxx" = true := by
  obtain ⟨policy, hpolicy⟩ := documentedPolicy_compiles
  have hapi : ∀ path, path.toList.head? = some '/' →
      policy.api segmentLibraries path = documentedPolicy.api path := fun path hpath =>
    (compiledFrom_of_compile hpolicy).api_eq segmentLibraries_comparesSegments hpath
  have hfield : policy.api segmentLibraries "/api/:id/xxx" = some "/api/:id/xxx" := by
    rw [hapi _ (by decide)]
    decide +kernel
  have hfield' : policy.api segmentLibraries "/api/123/xxx" = some "/api/:id/xxx" := by
    rw [hapi _ (by decide)]
    decide +kernel
  obtain heq | ⟨-, -, -, -, haccepts, haccepts'⟩ := api_field_shared segmentLibraries_comparesSegments
    hpolicy (by decide) (by decide) hfield hfield'
  · exact absurd heq (by decide)
  · exact ⟨policy, hpolicy, hfield, hfield', haccepts, haccepts'⟩

end CompiledPolicy

end BreezeGateway
