import BreezeGateway.Effects.Validation
import BreezeGateway.Dispatch

/-!
# The compilation of routes

A configuration compiles into a table that answers as its rules say, or is refused at the first
rule that is wrong.
-/

namespace BreezeGateway

/-! ## What a rule says -/

/-- No methods mean every method. -/
def covers (accepts : String → String → Bool) (methods : List String) (template method path : String) :
    Bool :=
  (methods.isEmpty || methods.contains method) && accepts template path

def badMethod (name : String) : Bool := !isMethod (utf8 name)

def validMethods (methods : List String) : List Method := methods.filterMap Method.fromStr

namespace ExclusionRule

variable (rule : ExclusionRule)

def offends : Bool := rule.methods.any badMethod

def indexed : IndexedRouteRule := ⟨rule.path, validMethods rule.methods, 0⟩

def covers (accepts : String → String → Bool) (method : Method) (path : String) : Bool :=
  BreezeGateway.covers accepts rule.methods rule.path method.name path

end ExclusionRule

namespace RouteRule

variable (rule : RouteRule)

def badAdmission : Bool := rule.admission.any (!·.isValid)

def offends : Bool := rule.badAdmission || rule.methods.any badMethod

def indexed : IndexedRouteRule := ⟨rule.path, validMethods rule.methods, 0⟩

def covers (accepts : String → String → Bool) (method : Method) (path : String) : Bool :=
  BreezeGateway.covers accepts rule.methods rule.path method.name path

end RouteRule

/-- An index answers by the templates and the methods of the rules it is built from, and of rules
with one rank it selects the first. -/
structure Routing.Declared {Index : Type} (lib : Routing Index) (accepts : String → String → Bool) :
    Prop where
  isMatch : ∀ {rules index}, lib.compile rules = .ok index → ∀ (method : Method) (path : String),
    lib.isMatch index method.name path = rules.any fun rule =>
      covers accepts (rule.methods.map Method.name) rule.path method.name path
  selected : ∀ {rules index}, lib.compile rules = .ok index → (∀ rule ∈ rules, rule.rank = 0) →
    ∀ (method : Method) (path : String),
      lib.selected index method.name path = rules.findIdx? fun rule =>
        covers accepts (rule.methods.map Method.name) rule.path method.name path

namespace RouteTable

/-! ## Methods -/

theorem fromStr_of_valid {name : String} (h : badMethod name = false) :
    ∃ method, Method.fromStr name = some method ∧ method.name = name := by
  have hvalid : isMethod (utf8 name) = true := by simpa [badMethod] using h
  exact ⟨⟨name, hvalid⟩, dif_pos hvalid, rfl⟩

theorem fromStr_of_bad {name : String} (h : badMethod name = true) : Method.fromStr name = none := by
  have hinvalid : ¬ isMethod (utf8 name) = true := by simpa [badMethod] using h
  exact dif_neg hinvalid

theorem names_validMethods {methods : List String} (h : methods.any badMethod = false) :
    (validMethods methods).map Method.name = methods := by
  induction methods with
  | nil => rfl
  | cons name methods ih =>
      rw [List.any_cons, Bool.or_eq_false_iff] at h
      obtain ⟨method, hmethod, hname⟩ := fromStr_of_valid h.1
      have hrest := ih h.2
      unfold validMethods at hrest ⊢
      rw [List.filterMap_cons_some hmethod, List.map_cons, hrest, hname]

theorem parseMethods_ok (invalid : String → ConfigError) {methods : List String}
    (h : methods.any badMethod = false) :
    parseMethods invalid methods = .ok (validMethods methods) := by
  induction methods with
  | nil => rfl
  | cons name methods ih =>
      rw [List.any_cons, Bool.or_eq_false_iff] at h
      obtain ⟨method, hmethod, -⟩ := fromStr_of_valid h.1
      have hrest := ih h.2
      unfold parseMethods validMethods at hrest ⊢
      rw [List.mapM_cons, List.filterMap_cons_some hmethod, hrest, hmethod]
      rfl

/-- The first text that is no method is reported. -/
theorem parseMethods_error (invalid : String → ConfigError) {methods : List String}
    (h : methods.any badMethod = true) :
    ∃ name, methods.find? badMethod = some name ∧
      parseMethods invalid methods = .error (invalid name) := by
  induction methods with
  | nil => cases h
  | cons name methods ih =>
      unfold parseMethods
      rw [List.mapM_cons, List.find?_cons]
      cases hname : badMethod name with
      | true =>
          rw [fromStr_of_bad hname]
          exact ⟨name, rfl, rfl⟩
      | false =>
          rw [List.any_cons, hname, Bool.false_or] at h
          obtain ⟨method, hmethod, -⟩ := fromStr_of_valid hname
          obtain ⟨other, hother, hrest⟩ := ih h
          unfold parseMethods at hrest
          rw [hmethod, hrest]
          exact ⟨other, hother, rfl⟩

/-! ## The two passes -/

theorem compileExclusion_error {rule : ExclusionRule} (i : ℕ) (h : rule.offends = true) :
    ∃ name, rule.methods.find? badMethod = some name ∧
      compileExclusion (rule, i) = .error (.invalidExclusionMethod i name) := by
  obtain ⟨name, hname, herror⟩ := parseMethods_error (.invalidExclusionMethod i) h
  refine ⟨name, hname, ?_⟩
  unfold compileExclusion
  rw [herror]
  rfl

theorem compileExclusion_refuses :
    Validation.Refuses compileExclusion ExclusionRule.offends ExclusionRule.indexed where
  accepted {rule} i h := by
    unfold compileExclusion
    rw [parseMethods_ok _ h]
    rfl
  refused i h := by
    obtain ⟨name, -, herror⟩ := compileExclusion_error i h
    exact ⟨_, herror⟩

/-- The closure over the routes without the vector that it fills. -/
def checkRoute (rule : RouteRule × ℕ) : Except ConfigError IndexedRouteRule :=
  if rule.1.badAdmission then .error (.invalidAdmission rule.2)
  else do
    let methods ← parseMethods (.invalidMethod rule.2) rule.1.methods
    pure ⟨rule.1.path, methods, 0⟩

theorem compileRoute_eq (acc : List (Option AdmissionRule) × List IndexedRouteRule)
    (rule : RouteRule × ℕ) :
    compileRoute acc rule = checkRoute rule >>= fun indexed =>
      pure (acc.1 ++ [rule.1.admission], acc.2 ++ [indexed]) := by
  unfold compileRoute checkRoute
  by_cases hadmission : rule.1.badAdmission = true
  · rw [if_pos hadmission]
    exact if_pos hadmission
  · rw [if_neg hadmission, bind_assoc]
    refine (if_neg hadmission).trans ?_
    exact bind_congr fun methods => rfl

theorem checkRoute_admission {rule : RouteRule} (i : ℕ) (h : rule.badAdmission = true) :
    checkRoute (rule, i) = .error (.invalidAdmission i) := by
  exact if_pos h

theorem checkRoute_method {rule : RouteRule} (i : ℕ) (hadmission : rule.badAdmission = false)
    (h : rule.methods.any badMethod = true) :
    ∃ name, rule.methods.find? badMethod = some name ∧
      checkRoute (rule, i) = .error (.invalidMethod i name) := by
  obtain ⟨name, hname, herror⟩ := parseMethods_error (.invalidMethod i) h
  refine ⟨name, hname, ?_⟩
  refine (if_neg (Bool.eq_false_iff.mp hadmission)).trans ?_
  rw [herror]
  rfl

theorem checkRoute_refuses : Validation.Refuses checkRoute RouteRule.offends RouteRule.indexed where
  accepted {rule} i h := by
    obtain ⟨hadmission, hmethods⟩ := Bool.or_eq_false_iff.mp h
    refine (if_neg (Bool.eq_false_iff.mp hadmission)).trans ?_
    rw [parseMethods_ok _ hmethods]
    rfl
  refused {rule} i h := by
    cases hadmission : rule.badAdmission with
    | true => exact ⟨_, checkRoute_admission i hadmission⟩
    | false =>
        rw [RouteRule.offends, hadmission, Bool.false_or] at h
        obtain ⟨name, -, herror⟩ := checkRoute_method i hadmission h
        exact ⟨_, herror⟩

theorem foldlM_compileRoute (rules : List (RouteRule × ℕ)) :
    rules.foldlM compileRoute ([], []) = rules.mapM checkRoute >>= fun indexed =>
      pure (rules.map fun rule => rule.1.admission, indexed) := by
  have hstep : compileRoute = fun acc rule => checkRoute rule >>= fun indexed =>
      pure (acc.1 ++ [rule.1.admission], acc.2 ++ [indexed]) := by
    funext acc rule
    exact compileRoute_eq acc rule
  rw [hstep]
  exact Validation.foldlM_keeping (fun rule : RouteRule × ℕ => rule.1.admission) rules [] []

/-! ## The outcome -/

variable {Index : Type} {lib : Routing Index} {config : RoutesConfig}

theorem compile_eq : compile lib config =
    config.exclude.zipIdx.mapM compileExclusion >>= fun exclude =>
    compileIndex lib .exclusionRoute exclude >>= fun exclusions =>
    config.routes.zipIdx.mapM checkRoute >>= fun routes =>
    compileIndex lib .route routes >>= fun index =>
    pure ⟨index, exclusions, config.routes.map RouteRule.admission⟩ := by
  have hadmissions : config.routes.zipIdx.map (fun rule => rule.1.admission) =
      config.routes.map RouteRule.admission := by
    conv_rhs => rw [← List.zipIdx_map_fst 0 config.routes, List.map_map]
    rfl
  unfold compile
  refine bind_congr fun exclude => bind_congr fun exclusions => ?_
  rw [foldlM_compileRoute, bind_assoc, hadmissions]
  refine bind_congr fun routes => ?_
  rw [pure_bind]

inductive Compiled (lib : Routing Index) (config : RoutesConfig) :
    Except ConfigError (RouteTable Index) → Prop where
  | exclusionMethod {i : ℕ} {rule : ExclusionRule} {name : String}
      (hfirst : config.exclude.findIdx? ExclusionRule.offends = some i)
      (hrule : config.exclude[i]? = some rule) (hname : rule.methods.find? badMethod = some name) :
      Compiled lib config (.error (.invalidExclusionMethod i name))
  | exclusionRoute {message : String}
      (hexclude : config.exclude.findIdx? ExclusionRule.offends = none)
      (hindex : lib.compile (config.exclude.map ExclusionRule.indexed) = .error message) :
      Compiled lib config (.error (.exclusionRoute message))
  | admission {i : ℕ} {rule : RouteRule}
      (hfirst : config.routes.findIdx? RouteRule.offends = some i)
      (hrule : config.routes[i]? = some rule) (hadmission : rule.badAdmission = true) :
      Compiled lib config (.error (.invalidAdmission i))
  | method {i : ℕ} {rule : RouteRule} {name : String}
      (hfirst : config.routes.findIdx? RouteRule.offends = some i)
      (hrule : config.routes[i]? = some rule) (hadmission : rule.badAdmission = false)
      (hname : rule.methods.find? badMethod = some name) :
      Compiled lib config (.error (.invalidMethod i name))
  | route {message : String} (hroutes : config.routes.findIdx? RouteRule.offends = none)
      (hindex : lib.compile (config.routes.map RouteRule.indexed) = .error message) :
      Compiled lib config (.error (.route message))
  | table {exclusions index : Index}
      (hexclude : config.exclude.findIdx? ExclusionRule.offends = none)
      (hexclusions : lib.compile (config.exclude.map ExclusionRule.indexed) = .ok exclusions)
      (hroutes : config.routes.findIdx? RouteRule.offends = none)
      (hindex : lib.compile (config.routes.map RouteRule.indexed) = .ok index) :
      Compiled lib config (.ok ⟨index, exclusions, config.routes.map RouteRule.admission⟩)

theorem ok_bind {ε α β : Type} (a : α) (f : α → Except ε β) : (Except.ok a >>= f) = f a := rfl

theorem compileIndex_error {error : String → ConfigError} {rules : List IndexedRouteRule}
    {message : String} (h : lib.compile rules = .error message) :
    compileIndex lib error rules = .error (error message) := by
  unfold compileIndex
  rw [h]

theorem compileIndex_ok {error : String → ConfigError} {rules : List IndexedRouteRule} {index : Index}
    (h : lib.compile rules = .ok index) : compileIndex lib error rules = .ok index := by
  unfold compileIndex
  rw [h]

theorem compiled (lib : Routing Index) (config : RoutesConfig) :
    Compiled lib config (compile lib config) := by
  rw [compile_eq]
  cases hexclude : config.exclude.findIdx? ExclusionRule.offends with
  | some i =>
      obtain ⟨rule, e, hrule, hoffends, herror, hpass⟩ := compileExclusion_refuses.mapM_error 0 hexclude
      obtain ⟨name, hname, hfirst⟩ := compileExclusion_error (0 + i) hoffends
      rw [hfirst, Nat.zero_add] at herror
      obtain rfl := Except.error.inj herror
      rw [hpass]
      exact .exclusionMethod hexclude hrule hname
  | none =>
      rw [compileExclusion_refuses.mapM_ok 0 hexclude]
      cases hexclusions : lib.compile (config.exclude.map ExclusionRule.indexed) with
      | error message =>
          rw [ok_bind, compileIndex_error hexclusions]
          exact .exclusionRoute hexclude hexclusions
      | ok exclusions =>
          rw [ok_bind, compileIndex_ok hexclusions, ok_bind]
          cases hroutes : config.routes.findIdx? RouteRule.offends with
          | some i =>
              obtain ⟨rule, e, hrule, hoffends, herror, hpass⟩ := checkRoute_refuses.mapM_error 0 hroutes
              rw [hpass]
              rw [Nat.zero_add] at herror
              cases hadmission : rule.badAdmission with
              | true =>
                  rw [checkRoute_admission i hadmission] at herror
                  obtain rfl := Except.error.inj herror
                  exact .admission hroutes hrule hadmission
              | false =>
                  rw [RouteRule.offends, hadmission, Bool.false_or] at hoffends
                  obtain ⟨name, hname, hfirst⟩ := checkRoute_method i hadmission hoffends
                  rw [hfirst] at herror
                  obtain rfl := Except.error.inj herror
                  exact .method hroutes hrule hadmission hname
          | none =>
              rw [checkRoute_refuses.mapM_ok 0 hroutes, ok_bind]
              cases hindex : lib.compile (config.routes.map RouteRule.indexed) with
              | error message =>
                  rw [compileIndex_error hindex]
                  exact .route hroutes hindex
              | ok index =>
                  rw [compileIndex_ok hindex]
                  exact .table hexclude hexclusions hroutes hindex

theorem Compiled.of_ok {table : RouteTable Index} (h : Compiled lib config (.ok table)) :
    config.exclude.findIdx? ExclusionRule.offends = none ∧
      config.routes.findIdx? RouteRule.offends = none ∧
      lib.compile (config.exclude.map ExclusionRule.indexed) = .ok table.exclusions ∧
      lib.compile (config.routes.map RouteRule.indexed) = .ok table.index ∧
      table.admissions = config.routes.map RouteRule.admission := by
  cases h with
  | table hexclude hexclusions hroutes hindex => exact ⟨hexclude, hroutes, hexclusions, hindex, rfl⟩

theorem compile_ok (hexclude : config.exclude.findIdx? ExclusionRule.offends = none)
    (hroutes : config.routes.findIdx? RouteRule.offends = none) {exclusions index : Index}
    (hexclusions : lib.compile (config.exclude.map ExclusionRule.indexed) = .ok exclusions)
    (hindex : lib.compile (config.routes.map RouteRule.indexed) = .ok index) :
    compile lib config = .ok ⟨index, exclusions, config.routes.map RouteRule.admission⟩ := by
  rw [compile_eq, compileExclusion_refuses.mapM_ok 0 hexclude, ok_bind,
    compileIndex_ok hexclusions, ok_bind, checkRoute_refuses.mapM_ok 0 hroutes, ok_bind,
    compileIndex_ok hindex]
  rfl

theorem not_offends_iff {rules : List ExclusionRule} :
    rules.findIdx? ExclusionRule.offends = none ↔
      ∀ rule ∈ rules, ∀ name ∈ rule.methods, isMethod (utf8 name) = true := by
  simp only [List.findIdx?_eq_none_iff, ExclusionRule.offends, List.any_eq_false, badMethod,
    Bool.not_eq_true', Bool.not_eq_false]

theorem not_offends_route_iff {rules : List RouteRule} :
    rules.findIdx? RouteRule.offends = none ↔ ∀ rule ∈ rules,
      (∀ admission, rule.admission = some admission → admission.isValid = true) ∧
        ∀ name ∈ rule.methods, isMethod (utf8 name) = true := by
  have hadmission : ∀ rule : RouteRule, rule.badAdmission = false ↔
      ∀ admission, rule.admission = some admission → admission.isValid = true := by
    intro rule
    unfold RouteRule.badAdmission
    cases rule.admission with
    | none => simp
    | some admission => simp
  simp only [List.findIdx?_eq_none_iff, RouteRule.offends, Bool.or_eq_false_iff, hadmission,
    List.any_eq_false, badMethod, Bool.not_eq_true', Bool.not_eq_false]

/-! ## The answers of a table -/

theorem any_congr_mem {α : Type} {l : List α} {p q : α → Bool} (h : ∀ x ∈ l, p x = q x) :
    l.any p = l.any q := by
  have hmap : l.map p = l.map q := List.map_congr_left h
  calc
    l.any p = (l.map p).any id := by rw [List.any_map, Function.id_comp]
    _ = (l.map q).any id := congrArg (fun values => values.any id) hmap
    _ = l.any q := by rw [List.any_map, Function.id_comp]

theorem findIdx?_congr_mem {α : Type} {l : List α} {p q : α → Bool} (h : ∀ x ∈ l, p x = q x) :
    l.findIdx? p = l.findIdx? q := by
  have hmap : l.map p = l.map q := List.map_congr_left h
  calc
    l.findIdx? p = (l.map p).findIdx? id := by rw [List.findIdx?_map, Function.id_comp]
    _ = (l.map q).findIdx? id := congrArg (List.findIdx? id) hmap
    _ = l.findIdx? q := by rw [List.findIdx?_map, Function.id_comp]

variable {accepts : String → String → Bool} {table : RouteTable Index}

theorem isExcluded_eq (hlib : lib.Declared accepts) (h : compile lib config = .ok table)
    (method : Method) (path : String) : table.isExcluded lib method path =
      config.exclude.any fun rule => rule.covers accepts method path := by
  obtain ⟨hexclude, -, hexclusions, -, -⟩ := (h ▸ compiled lib config).of_ok
  have hgood := List.findIdx?_eq_none_iff.mp hexclude
  unfold isExcluded
  rw [hlib.isMatch hexclusions, List.any_map]
  apply any_congr_mem
  intro rule hrule
  dsimp only [Function.comp, ExclusionRule.indexed, ExclusionRule.covers]
  rw [names_validMethods (hgood rule hrule)]

theorem select_eq (hlib : lib.Declared accepts) (h : compile lib config = .ok table)
    (method : Method) (path : String) : table.select lib method path =
      if config.exclude.any fun rule => rule.covers accepts method path then none
      else config.routes.findIdx? fun rule => rule.covers accepts method path := by
  obtain ⟨-, hroutes, -, hindex, -⟩ := (h ▸ compiled lib config).of_ok
  have hgood := List.findIdx?_eq_none_iff.mp hroutes
  have hrank : ∀ rule ∈ config.routes.map RouteRule.indexed, rule.rank = 0 := by
    intro rule hrule
    obtain ⟨route, -, rfl⟩ := List.mem_map.mp hrule
    rfl
  have hselected : lib.selected table.index method.name path =
      config.routes.findIdx? fun rule => rule.covers accepts method path := by
    rw [hlib.selected hindex hrank, List.findIdx?_map]
    apply findIdx?_congr_mem
    intro rule hrule
    have hmethods := (Bool.or_eq_false_iff.mp (hgood rule hrule)).2
    dsimp only [Function.comp, RouteRule.indexed, RouteRule.covers]
    rw [names_validMethods hmethods]
  unfold select
  rw [isExcluded_eq hlib h, hselected]

theorem excluded_congr {rules rules' : List ExclusionRule} (h : ∀ rule, rule ∈ rules' ↔ rule ∈ rules)
    (covers : ExclusionRule → Bool) : rules'.any covers = rules.any covers := by
  rw [Bool.eq_iff_iff, List.any_eq_true, List.any_eq_true]
  exact exists_congr fun rule => and_congr_left fun _ => h rule

/-! ## The law of compilation -/

/-- A table compiles exactly from methods, admissions and templates that are valid; else the first
rule that is wrong is reported.  It answers with the first route that matches, unless the request is
excluded, and has the admission of each route at its position. -/
theorem route_compilation (hlib : lib.Declared accepts) (config : RoutesConfig) :
    ((∃ table, compile lib config = .ok table) ↔
      (∀ rule ∈ config.exclude, ∀ name ∈ rule.methods, isMethod (utf8 name) = true) ∧
      (∀ rule ∈ config.routes,
        (∀ admission, rule.admission = some admission → admission.isValid = true) ∧
          ∀ name ∈ rule.methods, isMethod (utf8 name) = true) ∧
      (∃ index, lib.compile (config.exclude.map ExclusionRule.indexed) = .ok index) ∧
      ∃ index, lib.compile (config.routes.map RouteRule.indexed) = .ok index) ∧
    (∀ i name, compile lib config = .error (.invalidExclusionMethod i name) →
      config.exclude.findIdx? ExclusionRule.offends = some i ∧
      ∃ rule, config.exclude[i]? = some rule ∧ rule.methods.find? badMethod = some name) ∧
    (∀ i, compile lib config = .error (.invalidAdmission i) →
      config.routes.findIdx? RouteRule.offends = some i ∧
      ∃ rule, config.routes[i]? = some rule ∧ rule.badAdmission = true) ∧
    (∀ i name, compile lib config = .error (.invalidMethod i name) →
      config.routes.findIdx? RouteRule.offends = some i ∧
      ∃ rule, config.routes[i]? = some rule ∧ rule.badAdmission = false ∧
        rule.methods.find? badMethod = some name) ∧
    (∀ table, compile lib config = .ok table →
      table.admissions = config.routes.map RouteRule.admission ∧
      ∀ method path, table.select lib method path =
        if config.exclude.any fun rule => rule.covers accepts method path then none
        else config.routes.findIdx? fun rule => rule.covers accepts method path) ∧
    ∀ config' table table', config'.routes = config.routes →
      (∀ rule, rule ∈ config'.exclude ↔ rule ∈ config.exclude) →
      compile lib config = .ok table → compile lib config' = .ok table' →
      table'.admissions = table.admissions ∧
        ∀ method path, table'.select lib method path = table.select lib method path := by
  have hcompiled := compiled lib config
  refine ⟨⟨?_, ?_⟩, ?_, ?_, ?_, ?_, ?_⟩
  · rintro ⟨table, htable⟩
    rw [htable] at hcompiled
    obtain ⟨hexclude, hroutes, hexclusions, hindex, -⟩ := hcompiled.of_ok
    exact ⟨not_offends_iff.mp hexclude, not_offends_route_iff.mp hroutes, ⟨_, hexclusions⟩,
      ⟨_, hindex⟩⟩
  · rintro ⟨hexclude, hroutes, ⟨exclusions, hexclusions⟩, ⟨index, hindex⟩⟩
    exact ⟨_, compile_ok (not_offends_iff.mpr hexclude) (not_offends_route_iff.mpr hroutes)
      hexclusions hindex⟩
  · intro i name herror
    rw [herror] at hcompiled
    cases hcompiled with
    | exclusionMethod hfirst hrule hname => exact ⟨hfirst, _, hrule, hname⟩
  · intro i herror
    rw [herror] at hcompiled
    cases hcompiled with
    | admission hfirst hrule hadmission => exact ⟨hfirst, _, hrule, hadmission⟩
  · intro i name herror
    rw [herror] at hcompiled
    cases hcompiled with
    | method hfirst hrule hadmission hname => exact ⟨hfirst, _, hrule, hadmission, hname⟩
  · intro table htable
    refine ⟨?_, select_eq hlib htable⟩
    rw [htable] at hcompiled
    exact hcompiled.of_ok.2.2.2.2
  · intro config' table table' hroutes hexclude htable htable'
    have hadmissions' := (htable' ▸ compiled lib config').of_ok.2.2.2.2
    rw [htable] at hcompiled
    refine ⟨?_, ?_⟩
    · rw [hadmissions', hroutes, hcompiled.of_ok.2.2.2.2]
    · intro method path
      rw [select_eq hlib htable, select_eq hlib htable', hroutes, excluded_congr hexclude]

end RouteTable

def literalRouting : Routing (List IndexedRouteRule) where
  compile rules :=
    if rules.all fun rule => rule.path.toList.head? == some '/' then .ok rules
    else .error "route path must be absolute"
  selected rules method path := rules.findIdx? fun rule =>
    covers (· == ·) (rule.methods.map Method.name) rule.path method path
  isMatch rules method path := rules.any fun rule =>
    covers (· == ·) (rule.methods.map Method.name) rule.path method path
  default := []

theorem literalRouting_declared : literalRouting.Declared (· == ·) where
  isMatch := by
    intro rules index h method path
    simp only [literalRouting] at h
    split at h
    · obtain rfl := Except.ok.inj h
      rfl
    · cases h
  selected := by
    intro rules index h _ method path
    simp only [literalRouting] at h
    split at h
    · obtain rfl := Except.ok.inj h
      rfl
    · cases h

def overlappingRoutes : RoutesConfig where
  routes := [⟨["POST"], "/orders", none⟩, ⟨[], "/orders", some ⟨"recorder", "writes", 50⟩⟩,
    ⟨[], "/health", none⟩]
  exclude := [⟨["GET"], "/health"⟩]

namespace RouteTable

theorem route_compilation_overlapping :
    ∃ table, compile literalRouting overlappingRoutes = .ok table ∧
      table.admissions = [none, some ⟨"recorder", "writes", 50⟩, none] ∧
      table.select literalRouting .get "/orders" = some 1 ∧
      table.select literalRouting .get "/health" = none ∧
      table.select literalRouting .options "/health" = some 2 := by
  obtain ⟨hcompiles, -, -, -, htable, -⟩ :=
    route_compilation literalRouting_declared overlappingRoutes
  obtain ⟨table, h⟩ := hcompiles.mpr
    ⟨by decide +kernel, by decide +kernel, ⟨_, rfl⟩, ⟨_, rfl⟩⟩
  obtain ⟨hadmissions, hselect⟩ := htable table h
  refine ⟨table, h, hadmissions, ?_, ?_, ?_⟩
  · rw [hselect]
    decide +kernel
  · rw [hselect]
    decide +kernel
  · rw [hselect]
    decide +kernel

end RouteTable

end BreezeGateway
