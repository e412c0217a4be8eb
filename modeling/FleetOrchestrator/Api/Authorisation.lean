import FleetOrchestrator.Api.Middleware

/-! Whether the capability that a path is tested for is the one of the handler that it leads to. -/

namespace FleetOrchestrator.Api

open Core Encoding

section Tests

variable {p : String} {xs ys : List Text} {x : Text}

theorem eq_joined (hx : Plain '/' xs) (hy : Plain '/' ys) (hp : p.toList = joinPath '/' ys) :
    joinPath '/' xs = p.toList ↔ xs = ys := by
  rw [hp, joinPath_inj hx hy]

theorem startsWith_joined (hx : Plain '/' xs) (hy : Plain '/' ys)
    (hp : p.toList = joinPath '/' ys ++ ['/']) :
    startsWith p (joinPath '/' xs) = true ↔ ∃ z zs, xs = ys ++ z :: zs := by
  unfold startsWith
  rw [List.isPrefixOf_iff_prefix, hp, joinPath_prefix hx hy]

theorem endsWith_joined (hx : Plain '/' xs) (hy : Plain '/' ys)
    (hp : p.toList = joinPath '/' ys) :
    endsWith p (joinPath '/' xs) = true ↔ ys <:+ xs := by
  unfold endsWith
  rw [List.isSuffixOf_iff_suffix, hp, joinPath_suffix hx hy]

theorem stripPrefix_append (p : String) (s : Text) : stripPrefix p (p.toList ++ s) = some s := by
  unfold stripPrefix
  rw [List.dropPrefix?_eq_some_iff]
  exact ⟨p.toList, rfl, by simp⟩

theorem stripPrefix_none {s : Text} (h : startsWith p s = false) : stripPrefix p s = none := by
  unfold stripPrefix
  cases hs : s.dropPrefix? p.toList with
  | none => rfl
  | some t =>
    obtain ⟨q, rfl, hq⟩ := List.dropPrefix?_eq_some_iff.mp hs
    obtain rfl := eq_of_beq hq
    have hpre : startsWith p (p.toList ++ t) = true := by simp [startsWith]
    rw [h] at hpre
    cases hpre

theorem splitOnce_joined (hx : '/' ∉ x) : splitOnce '/' (x ++ joinPath '/' xs) =
    match xs with
    | [] => none
    | y :: ys => some (x, y ++ joinPath '/' ys) := by
  have hall : ∀ c ∈ x, decide (c ≠ '/') = true := by
    intro c hc
    rw [decide_eq_true_eq]
    rintro rfl
    exact hx hc
  unfold splitOnce
  rw [List.dropWhile_append_of_pos hall, List.takeWhile_append_of_pos hall]
  cases xs with
  | nil => rfl
  | cons y ys => simp

theorem normalized_joined (hx : '/' ∉ x) (hne : x ≠ "v1".toList) :
    normalizedV1Path (joinPath '/' (x :: xs)) = joinPath '/' (x :: xs) := by
  unfold normalizedV1Path
  split
  next rest hrest =>
    unfold stripPrefix at hrest
    obtain ⟨q, hq, hv⟩ := List.dropPrefix?_eq_some_iff.mp hrest
    obtain rfl := eq_of_beq hv
    split
    next hslash =>
      have hhead : rest = [] ∨ rest.head? = some '/' := by
        unfold startsWith at hslash
        rw [List.isPrefixOf_iff_prefix] at hslash
        obtain ⟨t, rfl⟩ := hslash
        exact .inr rfl
      rw [joinPath_cons] at hq
      have hq : x ++ joinPath '/' xs = "v1".toList ++ rest := List.cons_injective hq
      exact absurd (joinPath_split hx (by decide) (joinPath_head xs) hhead hq).1 hne
    next => rfl
  next => rfl

end Tests

section Credentials

variable {n m : Text} {xs : List Text}

theorem prefix_of_workers (n : Text) (xs : List Text) :
    joinPath '/' ("workers".toList :: n :: xs) = "/workers/".toList ++ (n ++ joinPath '/' xs) := by
  simp

theorem llm_not_worker (hx : Plain '/' xs) (h : ∀ z zs, xs ≠ "workers".toList :: z :: zs) :
    llmCredentialRoute (joinPath '/' xs) = none ∧ isWorkerByIdRoute (joinPath '/' xs) = false ∧
      startsWith "/workers/" (joinPath '/' xs) = false := by
  have hno : startsWith "/workers/" (joinPath '/' xs) = false := by
    rw [Bool.eq_false_iff]
    intro hs
    obtain ⟨z, zs, he⟩ := (startsWith_joined hx (by decide : Plain '/' ["workers".toList])
      (by decide)).mp hs
    exact h z zs he
  refine ⟨?_, ?_, hno⟩
  · simp [llmCredentialRoute, stripPrefix_none hno]
  · simp [isWorkerByIdRoute, stripPrefix_none hno]

/-- What the credential test makes of a path with segments behind the worker's name. -/
theorem llm_worker {y : Text} {ys : List Text} (hn : '/' ∉ n) (hne : n ≠ []) :
    llmCredentialRoute (joinPath '/' ("workers".toList :: n :: y :: ys)) =
      (stripPrefix "credentials" (y ++ joinPath '/' ys)).map fun tail =>
        let item := tail.rdropWhile fun c => c = '/'
        if item.isEmpty then .collection
        else if startsWith "/" item && endsWith "/export" item then .export
        else .item := by
  unfold llmCredentialRoute
  rw [prefix_of_workers, stripPrefix_append]
  simp only [Option.bind_eq_bind, Option.bind_some]
  rw [splitOnce_joined hn]
  have hemp : n.isEmpty = false := by simpa using hne
  simp only [Option.bind_some, hemp, Bool.false_eq_true, if_false]
  cases stripPrefix "credentials" (y ++ joinPath '/' ys) with
  | none => rfl
  | some tail =>
    simp only [Option.bind_some, Option.map_some]
    split
    · rfl
    · split <;> rfl

theorem llm_by_id (hn : '/' ∉ n) :
    llmCredentialRoute (joinPath '/' ["workers".toList, n]) = none := by
  unfold llmCredentialRoute
  rw [prefix_of_workers, stripPrefix_append]
  simp only [Option.bind_eq_bind, Option.bind_some]
  rw [splitOnce_joined hn]
  rfl

theorem byId (hn : '/' ∉ n) (hne : n ≠ []) :
    isWorkerByIdRoute (joinPath '/' ["workers".toList, n]) = true := by
  unfold isWorkerByIdRoute
  rw [prefix_of_workers, stripPrefix_append]
  simp [hn, hne]

theorem llm_collection (hn : '/' ∉ n) (hne : n ≠ []) :
    llmCredentialRoute (joinPath '/' ["workers".toList, n, "credentials".toList]) =
      some .collection := by
  rw [llm_worker hn hne, joinPath_nil, stripPrefix_append]
  rfl

theorem llm_below (hn : '/' ∉ n) (hne : n ≠ []) (xs : List Text) :
    (llmCredentialRoute (joinPath '/' ("workers".toList :: n :: "credentials".toList :: xs))).isSome =
      true := by
  rw [llm_worker hn hne, stripPrefix_append]
  rfl

theorem llm_export (hn : '/' ∉ n) (hne : n ≠ []) (hm : '/' ∉ m) :
    llmCredentialRoute (joinPath '/' ["workers".toList, n, "credentials".toList, m,
      "export".toList]) = some .export := by
  rw [llm_worker hn hne, stripPrefix_append]
  have hp : Plain '/' [m, "export".toList] := by
    rw [plain_cons]
    exact ⟨hm, by decide⟩
  have hend : endsWith "/export" (joinPath '/' [m, "export".toList]) = true :=
    (endsWith_joined hp (by decide : Plain '/' ["export".toList]) (by decide)).mpr
      (List.suffix_cons m _)
  have hkeep : (joinPath '/' [m, "export".toList]).rdropWhile (fun c => decide (c = '/')) =
      joinPath '/' [m, "export".toList] := by simp
  simp only [Option.map_some, hkeep, hend, Bool.and_true]
  simp [startsWith]

theorem llm_singular (hn : '/' ∉ n) (hne : n ≠ []) (hx : Plain '/' xs) :
    llmCredentialRoute (joinPath '/' ("workers".toList :: n :: "credential".toList :: xs)) =
      none := by
  rw [llm_worker hn hne]
  have hno : startsWith "credentials" ("credential".toList ++ joinPath '/' xs) = false := by
    cases xs with
    | nil => decide
    | cons x xs => simp [startsWith, List.isPrefixOf]
  rw [stripPrefix_none hno, Option.map_none]

end Credentials

section Routing

variable {m : Method} {xs : List Text} {h : Handler} {path : Text}

theorem matches_lit {s : String} {ps : List Piece} :
    matchesAll (.lit s :: ps) xs = true ↔ ∃ xs', xs = s.toList :: xs' ∧ matchesAll ps xs' = true := by
  cases xs with
  | nil => simp [matchesAll]
  | cons x xs => simp [matchesAll, Piece.matches]

theorem matches_param {ps : List Piece} :
    matchesAll (.param :: ps) xs = true ↔
      ∃ x xs', xs = x :: xs' ∧ x ≠ [] ∧ matchesAll ps xs' = true := by
  cases xs with
  | nil => simp [matchesAll]
  | cons x xs => simp [matchesAll, Piece.matches]

theorem matches_nil : matchesAll [] xs = true ↔ xs = [] := by
  cases xs with
  | nil => simp [matchesAll]
  | cons x xs => simp [matchesAll]

theorem dispatch_route (hd : dispatch m path = some h) :
    ∃ xs route, path = joinPath '/' xs ∧ Plain '/' xs ∧ route ∈ v1Routes ∧
      matchesAll route.pieces xs = true ∧ route.handler m = some h := by
  unfold dispatch at hd
  simp only [Option.bind_eq_bind, Option.bind_eq_some_iff] at hd
  obtain ⟨xs, hxs, route, hroute, hh⟩ := hd
  obtain ⟨rfl, hplain⟩ := pathSegments_some hxs
  have hmatch := List.find?_some (p := fun r : Route => matchesAll r.pieces xs) hroute
  exact ⟨xs, route, rfl, hplain, List.mem_of_find?_eq_some hroute, hmatch, hh⟩

theorem required_get : requiredCapability .get path =
    if path = "/workers".toList then some .workerList
    else if llmCredentialRoute path = some .export then some .workerLlmCredentialExport
    else if (llmCredentialRoute path).isSome then some .workerLlmCredentialRead
    else if isWorkerByIdRoute path then some .workerList
    else if path = "/bootstrap-tokens".toList then some .tokenList
    else if path = "/admin/tokens".toList then some .adminTokenList
    else none := by
  simp only [requiredCapability, reduceCtorEq, decide_false, decide_true, Bool.false_and,
    Bool.true_and, Bool.or_self, decide_eq_true_eq, Bool.false_eq_true, if_false]

theorem required_post : requiredCapability .post path =
    if path = "/workers/register".toList ∨ path = "/workers/heartbeat".toList then
      some .workerRegister
    else if endsWith "/credential/rotate" path then some .workerCredentialManage
    else if path = "/bootstrap-tokens".toList then some .tokenIssue
    else if path = "/admin/tokens".toList then some .adminTokenManage
    else if startsWith "/admin/tokens/" path && endsWith "/rotate" path then some .adminTokenManage
    else if path = "/hosts/register".toList then some .hostProvision
    else none := by
  simp only [requiredCapability, reduceCtorEq, decide_false, decide_true, Bool.false_and,
    Bool.true_and, Bool.or_self, Bool.or_eq_true, decide_eq_true_eq, Bool.false_eq_true, if_false]

theorem required_put : requiredCapability .put path =
    if (llmCredentialRoute path).isSome then some .workerLlmCredentialManage else none := by
  simp only [requiredCapability, reduceCtorEq, decide_false, decide_true, Bool.false_and,
    Bool.true_and, Bool.or_self, Bool.or_false, Bool.false_eq_true, if_false]

theorem required_delete : requiredCapability .delete path =
    if startsWith "/workers/" path && endsWith "/credential" path then
      some .workerCredentialManage
    else if (llmCredentialRoute path).isSome then some .workerLlmCredentialManage
    else if startsWith "/workers/" path then some .workerDelete
    else if startsWith "/bootstrap-tokens/" path then some .tokenRevoke
    else if startsWith "/admin/tokens/" path then some .adminTokenManage
    else none := by
  simp only [requiredCapability, reduceCtorEq, decide_false, decide_true, Bool.false_and,
    Bool.true_and, Bool.or_self, Bool.or_true, Bool.false_eq_true, if_false]

theorem required_head : requiredCapability .head path = none := by
  simp only [requiredCapability, reduceCtorEq, decide_false, Bool.false_and, Bool.or_self,
    Bool.false_eq_true, if_false]

theorem handler_lookup (route : Route) (hm : m ≠ .head) :
    route.handler m = route.methods.lookup m := by
  cases m with
  | head => exact absurd rfl hm
  | _ => rfl

theorem lookup_one {k : Method} {x : Handler} :
    [(k, x)].lookup m = some h ↔ m = k ∧ x = h := by
  by_cases hk : m = k
  · simp [hk]
  · rw [List.lookup_cons, beq_false_of_ne hk]
    simp [hk]

theorem lookup_two {k k' : Method} {x x' : Handler} :
    [(k, x), (k', x')].lookup m = some h ↔ (m = k ∧ x = h) ∨ (m ≠ k ∧ m = k' ∧ x' = h) := by
  by_cases hk : m = k
  · simp [hk]
  · rw [List.lookup_cons, beq_false_of_ne hk, lookup_one]
    simp [hk]

end Routing

/-- The names that make a path pass for another resource's. -/
def confusable (m : Method) (path : Text) : Bool :=
  (m = .post && path = "/admin/tokens/credential/rotate".toList) ||
    (m = .delete && (path = "/workers/credential".toList ||
      matchesAll [.lit "workers", .param, .lit "credentials", .lit "credential"]
        ((pathSegments '/' path).getD [])))

section Matrix

variable {m : Method} {xs : List Text} {h : Handler} {n t : Text}

theorem differs {p : String} (ys : List Text) (hx : Plain '/' xs) (hy : Plain '/' ys)
    (hp : p.toList = joinPath '/' ys) (h : xs ≠ ys) : joinPath '/' xs ≠ p.toList :=
  fun he => h ((eq_joined hx hy hp).mp he)

theorem required_get_worker (hn : '/' ∉ n) (hne : n ≠ []) :
    requiredCapability .get (joinPath '/' ["workers".toList, n]) = some .workerList := by
  have hx : Plain '/' ["workers".toList, n] := by
    rw [plain_cons, plain_cons]
    exact ⟨by decide, hn, by decide⟩
  have hlist := differs ["workers".toList] (p := "/workers") hx (by decide) (by decide)
    (by simp)
  rw [required_get, if_neg hlist, llm_by_id hn, byId hn hne]
  rfl

theorem required_get_credentials (hn : '/' ∉ n) (hne : n ≠ []) :
    requiredCapability .get (joinPath '/' ["workers".toList, n, "credentials".toList]) =
      some .workerLlmCredentialRead := by
  have hx : Plain '/' ["workers".toList, n, "credentials".toList] := by
    rw [plain_cons, plain_cons]
    exact ⟨by decide, hn, by decide⟩
  have hlist := differs ["workers".toList] (p := "/workers") hx (by decide) (by decide)
    (by simp)
  rw [required_get, if_neg hlist, llm_collection hn hne]
  rfl

theorem required_get_export (hn : '/' ∉ n) (hne : n ≠ []) (ht : '/' ∉ t) :
    requiredCapability .get (joinPath '/' ["workers".toList, n, "credentials".toList, t,
      "export".toList]) = some .workerLlmCredentialExport := by
  have hx : Plain '/' ["workers".toList, n, "credentials".toList, t, "export".toList] := by
    rw [plain_cons, plain_cons, plain_cons, plain_cons]
    exact ⟨by decide, hn, by decide, ht, by decide⟩
  have hlist := differs ["workers".toList] (p := "/workers") hx (by decide) (by decide)
    (by simp)
  rw [required_get, if_neg hlist, llm_export hn hne ht, if_pos rfl]

theorem required_put_credentials (hn : '/' ∉ n) (hne : n ≠ []) :
    requiredCapability .put (joinPath '/' ["workers".toList, n, "credentials".toList]) =
      some .workerLlmCredentialManage := by
  rw [required_put, llm_below hn hne, if_pos rfl]

theorem required_post_rotate (hn : '/' ∉ n) :
    requiredCapability .post (joinPath '/' ["workers".toList, n, "credential".toList,
      "rotate".toList]) = some .workerCredentialManage := by
  have hx : Plain '/' ["workers".toList, n, "credential".toList, "rotate".toList] := by
    rw [plain_cons, plain_cons]
    exact ⟨by decide, hn, by decide⟩
  have hregister := differs ["workers".toList, "register".toList]
    (p := "/workers/register") hx (by decide) (by decide) (by simp)
  have hheartbeat := differs ["workers".toList, "heartbeat".toList]
    (p := "/workers/heartbeat") hx (by decide) (by decide) (by simp)
  have hsuf : endsWith "/credential/rotate" (joinPath '/' ["workers".toList, n,
      "credential".toList, "rotate".toList]) = true :=
    (endsWith_joined hx (by decide : Plain '/' ["credential".toList, "rotate".toList])
      (by decide)).mpr ⟨["workers".toList, n], rfl⟩
  rw [required_post, if_neg (not_or.mpr ⟨hregister, hheartbeat⟩), if_pos hsuf]

/-- Where the last segment of a path is not the one that is tested for. -/
theorem not_endsWith {p : String} {x y : Text} (hx : Plain '/' (xs ++ [x])) (hy : '/' ∉ y)
    (hp : p.toList = joinPath '/' [y]) (h : x ≠ y) :
    endsWith p (joinPath '/' (xs ++ [x])) = false := by
  rw [Bool.eq_false_iff]
  intro hs
  have hplain : Plain '/' [y] := by
    rw [plain_cons]
    exact ⟨hy, by decide⟩
  obtain ⟨zs, hzs⟩ := (endsWith_joined hx hplain hp).mp hs
  exact h (List.append_inj_right' hzs.symm rfl |> List.singleton_inj.mp)

theorem required_rotate_admin (hn : '/' ∉ n) (hc : n ≠ "credential".toList) :
    requiredCapability .post (joinPath '/' ["admin".toList, "tokens".toList, n,
      "rotate".toList]) = some .adminTokenManage := by
  have hx : Plain '/' ["admin".toList, "tokens".toList, n, "rotate".toList] := by
    rw [plain_cons, plain_cons, plain_cons]
    exact ⟨by decide, by decide, hn, by decide⟩
  have hregister := differs ["workers".toList, "register".toList]
    (p := "/workers/register") hx (by decide) (by decide) (by simp)
  have hheartbeat := differs ["workers".toList, "heartbeat".toList]
    (p := "/workers/heartbeat") hx (by decide) (by decide) (by simp)
  have hbootstrap := differs ["bootstrap-tokens".toList]
    (p := "/bootstrap-tokens") hx (by decide) (by decide) (by simp)
  have htokens := differs ["admin".toList, "tokens".toList]
    (p := "/admin/tokens") hx (by decide) (by decide) (by simp)
  have hworker : endsWith "/credential/rotate" (joinPath '/' ["admin".toList, "tokens".toList, n,
      "rotate".toList]) = false := by
    rw [Bool.eq_false_iff]
    intro hs
    obtain ⟨zs, hzs⟩ := (endsWith_joined hx
      (by decide : Plain '/' ["credential".toList, "rotate".toList]) (by decide)).mp hs
    have hzs : zs ++ ["credential".toList, "rotate".toList] =
        ["admin".toList, "tokens".toList] ++ [n, "rotate".toList] := hzs
    have hlast := List.append_inj_right' hzs rfl
    exact hc (List.cons.inj hlast).1.symm
  have hpre : startsWith "/admin/tokens/" (joinPath '/' ["admin".toList, "tokens".toList, n,
      "rotate".toList]) = true :=
    (startsWith_joined hx (by decide : Plain '/' ["admin".toList, "tokens".toList])
      (by decide)).mpr ⟨n, ["rotate".toList], rfl⟩
  have hsuf : endsWith "/rotate" (joinPath '/' ["admin".toList, "tokens".toList, n,
      "rotate".toList]) = true :=
    (endsWith_joined hx (by decide : Plain '/' ["rotate".toList]) (by decide)).mpr
      ⟨["admin".toList, "tokens".toList, n], rfl⟩
  rw [required_post, if_neg (not_or.mpr ⟨hregister, hheartbeat⟩), hworker, if_neg hbootstrap,
    if_neg htokens, hpre, hsuf]
  rfl

theorem required_delete_worker (hn : '/' ∉ n) (hc : n ≠ "credential".toList) :
    requiredCapability .delete (joinPath '/' ["workers".toList, n]) = some .workerDelete := by
  have hx : Plain '/' ["workers".toList, n] := by
    rw [plain_cons, plain_cons]
    exact ⟨by decide, hn, by decide⟩
  have hpre : startsWith "/workers/" (joinPath '/' ["workers".toList, n]) = true :=
    (startsWith_joined hx (by decide : Plain '/' ["workers".toList]) (by decide)).mpr
      ⟨n, [], rfl⟩
  have hsuf : endsWith "/credential" (joinPath '/' (["workers".toList] ++ [n])) = false :=
    not_endsWith hx (by decide) (by decide) hc
  rw [List.singleton_append] at hsuf
  rw [required_delete, hpre, hsuf, llm_by_id hn]
  rfl

theorem required_delete_credential (hn : '/' ∉ n) :
    requiredCapability .delete (joinPath '/' ["workers".toList, n, "credential".toList]) =
      some .workerCredentialManage := by
  have hx : Plain '/' ["workers".toList, n, "credential".toList] := by
    rw [plain_cons, plain_cons]
    exact ⟨by decide, hn, by decide⟩
  have hpre : startsWith "/workers/" (joinPath '/' ["workers".toList, n, "credential".toList]) =
      true :=
    (startsWith_joined hx (by decide : Plain '/' ["workers".toList]) (by decide)).mpr
      ⟨n, ["credential".toList], rfl⟩
  have hsuf : endsWith "/credential" (joinPath '/' ["workers".toList, n, "credential".toList]) =
      true :=
    (endsWith_joined hx (by decide : Plain '/' ["credential".toList]) (by decide)).mpr
      ⟨["workers".toList, n], rfl⟩
  rw [required_delete, hpre, hsuf]
  rfl

theorem required_delete_model (hn : '/' ∉ n) (hne : n ≠ []) (ht : '/' ∉ t)
    (hc : t ≠ "credential".toList) :
    requiredCapability .delete (joinPath '/' ["workers".toList, n, "credentials".toList, t]) =
      some .workerLlmCredentialManage := by
  have hx : Plain '/' ["workers".toList, n, "credentials".toList, t] := by
    rw [plain_cons, plain_cons, plain_cons, plain_cons]
    exact ⟨by decide, hn, by decide, ht, by decide⟩
  have hsuf : endsWith "/credential" (joinPath '/'
      (["workers".toList, n, "credentials".toList] ++ [t])) = false :=
    not_endsWith hx (by decide) (by decide) hc
  rw [List.cons_append, List.cons_append, List.singleton_append] at hsuf
  rw [required_delete, hsuf, Bool.and_false, llm_below hn hne]
  rfl

theorem required_delete_bootstrap (hn : '/' ∉ n) :
    requiredCapability .delete (joinPath '/' ["bootstrap-tokens".toList, n]) =
      some .tokenRevoke := by
  have hx : Plain '/' ["bootstrap-tokens".toList, n] := by
    rw [plain_cons, plain_cons]
    exact ⟨by decide, hn, by decide⟩
  obtain ⟨hllm, -, hpre⟩ := llm_not_worker hx (by simp)
  have htoken : startsWith "/bootstrap-tokens/" (joinPath '/' ["bootstrap-tokens".toList, n]) =
      true :=
    (startsWith_joined hx (by decide : Plain '/' ["bootstrap-tokens".toList]) (by decide)).mpr
      ⟨n, [], rfl⟩
  rw [required_delete, hpre, hllm, htoken]
  rfl

theorem required_delete_admin (hn : '/' ∉ n) :
    requiredCapability .delete (joinPath '/' ["admin".toList, "tokens".toList, n]) =
      some .adminTokenManage := by
  have hx : Plain '/' ["admin".toList, "tokens".toList, n] := by
    rw [plain_cons, plain_cons, plain_cons]
    exact ⟨by decide, by decide, hn, by decide⟩
  obtain ⟨hllm, -, hpre⟩ := llm_not_worker hx (by simp)
  have hbootstrap : startsWith "/bootstrap-tokens/" (joinPath '/' ["admin".toList,
      "tokens".toList, n]) = false := by
    rw [Bool.eq_false_iff]
    intro hs
    obtain ⟨z, zs, he⟩ := (startsWith_joined hx
      (by decide : Plain '/' ["bootstrap-tokens".toList]) (by decide)).mp hs
    simp at he
  have hadmin : startsWith "/admin/tokens/" (joinPath '/' ["admin".toList, "tokens".toList, n]) =
      true :=
    (startsWith_joined hx (by decide : Plain '/' ["admin".toList, "tokens".toList])
      (by decide)).mpr ⟨n, [], rfl⟩
  rw [required_delete, hpre, hllm, hbootstrap, hadmin]
  rfl

/-- The test on the path finds the handler's own capability, unless the path is confusable. -/
theorem required_of_dispatch {path : Text} (hd : dispatch m path = some h)
    (hm : m ≠ .head) (hc : confusable m path = false) :
    h.capability = none ∨ requiredCapability m path = h.capability := by
  obtain ⟨xs, route, rfl, hx, hroute, hmatch, hh⟩ := dispatch_route hd
  simp only [confusable, Bool.or_eq_false_iff, Bool.and_eq_false_imp, decide_eq_true_eq,
    decide_eq_false_iff_not] at hc
  obtain ⟨hrotate, hdelete⟩ := hc
  rw [handler_lookup route hm] at hh
  simp only [v1Routes, nest, apiRoutes, credRoutes, tokenRoutes, adminTokenRoutes, List.map_cons,
    List.map_nil, List.cons_append, List.nil_append, List.mem_cons, List.not_mem_nil,
    or_false] at hroute
  rcases hroute with rfl | rfl | rfl | rfl | rfl | rfl | rfl | rfl | rfl | rfl | rfl | rfl | rfl |
    rfl | rfl | rfl | rfl
  all_goals
    simp only [matches_lit, matches_param, matches_nil] at hmatch
    simp only [lookup_one, lookup_two] at hh
  · obtain ⟨-, rfl⟩ := hh
    exact .inl rfl
  · obtain ⟨_, rfl, _, rfl, rfl⟩ := hmatch
    obtain ⟨rfl, rfl⟩ := hh
    exact .inr (by decide)
  · obtain ⟨_, rfl, _, rfl, rfl⟩ := hmatch
    obtain ⟨rfl, rfl⟩ := hh
    exact .inr (by decide)
  · obtain ⟨-, rfl⟩ := hh
    exact .inl rfl
  · obtain ⟨_, rfl, _, rfl, rfl⟩ := hmatch
    obtain ⟨rfl, rfl⟩ := hh
    exact .inr (by decide)
  · obtain ⟨_, rfl, rfl⟩ := hmatch
    obtain ⟨rfl, rfl⟩ := hh
    exact .inr (by decide)
  · obtain ⟨_, rfl, n, _, rfl, hne, rfl⟩ := hmatch
    have hn : '/' ∉ n := hx n (by simp)
    obtain ⟨rfl, rfl⟩ | ⟨-, rfl, rfl⟩ := hh
    · exact .inr (required_get_worker hn hne)
    · refine .inr (required_delete_worker hn ?_)
      rintro rfl
      exact absurd (hdelete rfl) (by decide)
  · obtain ⟨_, rfl, n, _, rfl, hne, _, rfl, _, rfl, rfl⟩ := hmatch
    have hn : '/' ∉ n := hx n (by simp)
    obtain ⟨rfl, rfl⟩ := hh
    exact .inr (required_post_rotate hn)
  · obtain ⟨_, rfl, n, _, rfl, hne, _, rfl, rfl⟩ := hmatch
    have hn : '/' ∉ n := hx n (by simp)
    obtain ⟨rfl, rfl⟩ := hh
    exact .inr (required_delete_credential hn)
  · obtain ⟨_, rfl, n, _, rfl, hne, _, rfl, rfl⟩ := hmatch
    have hn : '/' ∉ n := hx n (by simp)
    obtain ⟨rfl, rfl⟩ | ⟨-, rfl, rfl⟩ := hh
    · exact .inr (required_put_credentials hn hne)
    · exact .inr (required_get_credentials hn hne)
  · obtain ⟨_, rfl, n, _, rfl, hne, _, rfl, t, _, rfl, hte, _, rfl, rfl⟩ := hmatch
    have hn : '/' ∉ n := hx n (by simp)
    have ht : '/' ∉ t := hx t (by simp)
    obtain ⟨rfl, rfl⟩ := hh
    exact .inr (required_get_export hn hne ht)
  · obtain ⟨_, rfl, n, _, rfl, hne, _, rfl, t, _, rfl, hte, rfl⟩ := hmatch
    have hn : '/' ∉ n := hx n (by simp)
    have ht : '/' ∉ t := hx t (by simp)
    obtain ⟨rfl, rfl⟩ := hh
    refine .inr (required_delete_model hn hne ht ?_)
    rintro rfl
    have hno := (hdelete rfl).2
    rw [pathSegments_joinPath hx (by simp)] at hno
    simp [matchesAll, Piece.matches, hne] at hno
  · obtain ⟨_, rfl, rfl⟩ := hmatch
    obtain ⟨rfl, rfl⟩ | ⟨-, rfl, rfl⟩ := hh
    · exact .inr (by decide)
    · exact .inr (by decide)
  · obtain ⟨_, rfl, n, _, rfl, hne, rfl⟩ := hmatch
    have hn : '/' ∉ n := hx n (by simp)
    obtain ⟨rfl, rfl⟩ := hh
    exact .inr (required_delete_bootstrap hn)
  · obtain ⟨_, rfl, _, rfl, rfl⟩ := hmatch
    obtain ⟨rfl, rfl⟩ | ⟨-, rfl, rfl⟩ := hh
    · exact .inr (by decide)
    · exact .inr (by decide)
  · obtain ⟨_, rfl, _, rfl, n, _, rfl, hne, _, rfl, rfl⟩ := hmatch
    have hn : '/' ∉ n := hx n (by simp)
    obtain ⟨rfl, rfl⟩ := hh
    refine .inr (required_rotate_admin hn ?_)
    rintro rfl
    exact hrotate rfl (by decide)
  · obtain ⟨_, rfl, _, rfl, n, _, rfl, hne, rfl⟩ := hmatch
    have hn : '/' ∉ n := hx n (by simp)
    obtain ⟨rfl, rfl⟩ := hh
    exact .inr (required_delete_admin hn)

end Matrix

section Middleware

variable {s : AppState} {req : Request} {user : Option VerifiedUser}
  {context : Option AuthorizationContext}

def isExempt (req : Request) : Bool := isHealth req.path || isJoin req.method req.path

/-- Its principal holds the capability that the path is tested for. -/
def Holds (req : Request) (context : Option AuthorizationContext) : Prop :=
  ∃ c cap, context = some c ∧ requiredCapability req.method (normalizedV1Path req.path) = some cap ∧
    cap ∈ c.capabilities

theorem letThrough_holds {c : AuthorizationContext} (he : isExempt req = false)
    (h : letThrough req c = .ok context) : Holds req context := by
  obtain ⟨hh, hj⟩ := Bool.or_eq_false_iff.mp he
  unfold letThrough at h
  split at h
  next ha =>
    obtain rfl := Except.ok.inj h
    unfold authorizeHttpEndpoint at ha
    rw [hh, hj] at ha
    simp only [Bool.false_eq_true, if_false] at ha
    cases hr : requiredCapability req.method (normalizedV1Path req.path) with
    | none =>
      rw [hr] at ha
      cases ha
    | some cap =>
      rw [hr] at ha
      exact ⟨c, cap, rfl, hr, by simpa using ha⟩
  next => cases h

theorem auth_holds (he : isExempt req = false) (h : authMiddleware s req user = .ok context) :
    Holds req context := by
  obtain ⟨hh, hj⟩ := Bool.or_eq_false_iff.mp he
  unfold authMiddleware at h
  rw [hh, hj] at h
  simp only [Bool.false_eq_true, if_false] at h
  split at h
  · exact letThrough_holds he h
  · split at h
    · exact letThrough_holds he h
    · cases h

theorem pass_holds (he : isExempt req = false) (h : pass s req = .ok context) :
    Holds req context := by
  unfold pass at h
  cases hc : cloudflareAccessMiddleware s req with
  | error e =>
    rw [hc] at h
    cases h
  | ok user =>
    rw [hc] at h
    exact auth_holds he h

theorem dispatched_normalized {m : Method} {path : Text} {h : Handler}
    (hd : dispatch m path = some h) : normalizedV1Path path = path := by
  obtain ⟨xs, route, rfl, hx, hroute, hmatch, -⟩ := dispatch_route hd
  simp only [v1Routes, nest, apiRoutes, credRoutes, tokenRoutes, adminTokenRoutes, List.map_cons,
    List.map_nil, List.cons_append, List.nil_append, List.mem_cons, List.not_mem_nil,
    or_false] at hroute
  have hfirst : ∀ (first : String) (ps : List Piece), first.toList ≠ "v1".toList →
      matchesAll (.lit first :: ps) xs = true → normalizedV1Path (joinPath '/' xs) = joinPath '/' xs := by
    intro first ps hne hm
    obtain ⟨xs', rfl, -⟩ := matches_lit.mp hm
    exact normalized_joined (hx _ List.mem_cons_self) hne
  rcases hroute with rfl | rfl | rfl | rfl | rfl | rfl | rfl | rfl | rfl | rfl | rfl | rfl | rfl |
    rfl | rfl | rfl | rfl
  all_goals exact hfirst _ _ (by decide) hmatch

theorem dispatch_health (m : Method) : dispatch m "/health".toList =
    (⟨[.lit "health"], [(.get, .health)]⟩ : Route).handler m := rfl

theorem dispatch_join : dispatch .post "/workers/join".toList = some .joinWorker := by decide

/-- Only two handlers are for everybody. -/
theorem dispatched_exempt {h : Handler} (hd : dispatch req.method req.path = some h)
    (he : isExempt req = true) : h.capability = none := by
  have hn := dispatched_normalized hd
  rcases Bool.or_eq_true_iff.mp he with hh | hj
  · simp only [isHealth, hn, decide_eq_true_eq] at hh
    rw [hh, dispatch_health] at hd
    by_cases hm : req.method = .head
    · rw [hm] at hd
      cases hd
      rfl
    · rw [handler_lookup _ hm, lookup_one] at hd
      rw [← hd.2]
      rfl
  · simp only [isJoin, hn, Bool.and_eq_true, decide_eq_true_eq] at hj
    rw [hj.1, hj.2, dispatch_join] at hd
    cases hd
    rfl

end Middleware

/-- Whoever the configuration lets through to the handler holds the handler's own capability, and a
path without a test is let through to nobody. -/
def Guarded (m : Method) (path : Text) : Prop :=
  (∀ s req h context cap, req.method = m → req.path = path → reached s req = some (h, context) →
    h.capability = some cap → ∃ c, context = some c ∧ cap ∈ c.capabilities) ∧
  ∀ s req context, req.method = m → req.path = path → isExempt req = false →
    requiredCapability m (normalizedV1Path path) = none → pass s req ≠ .ok context

section Guard

variable {m : Method} {path : Text}

theorem reached_iff {s : AppState} {req : Request} {h : Handler}
    {context : Option AuthorizationContext} :
    reached s req = some (h, context) ↔
      dispatch req.method req.path = some h ∧ pass s req = .ok context := by
  unfold reached
  cases dispatch req.method req.path with
  | none => simp
  | some h' =>
    cases pass s req with
    | error e => simp
    | ok c => simp

theorem guarded_of_not_confusable (hc : confusable m path = false) : Guarded m path := by
  constructor
  · intro s req h context cap hm hp hr hcap
    obtain ⟨hd, hpass⟩ := reached_iff.mp hr
    have he : isExempt req = false := by
      rw [Bool.eq_false_iff]
      intro he
      rw [dispatched_exempt hd he] at hcap
      cases hcap
    obtain ⟨c, required, rfl, hrequired, hmem⟩ := pass_holds he hpass
    refine ⟨c, rfl, ?_⟩
    rw [dispatched_normalized hd, hm, hp] at hrequired
    rw [hm, hp] at hd
    have hhead : m ≠ .head := by
      rintro rfl
      rw [required_head] at hrequired
      cases hrequired
    obtain hnone | hown := required_of_dispatch hd hhead hc
    · rw [hnone] at hcap
      cases hcap
    · rw [hrequired, hcap] at hown
      rw [← Option.some.inj hown]
      exact hmem
  · intro s req context hm hp he hnone hpass
    obtain ⟨c, cap, -, hrequired, -⟩ := pass_holds he hpass
    rw [hm, hp, hnone] at hrequired
    cases hrequired

/-- A server with one token, which stands for one capability. -/
def oneToken (cap : PermissionKind) : AppState where
  validTokens := some [⟨"operator", "t", [cap]⟩]
  digestFor := id

def withToken (m : Method) (path : Text) : Request :=
  { method := m, path, authorization := some "Bearer t" }

theorem oneToken_passes {cap : PermissionKind} (hx : isExempt (withToken m path) = false)
    (hr : requiredCapability m (normalizedV1Path path) = some cap) :
    pass (oneToken cap) (withToken m path) =
      .ok (some (bearerContext ⟨"operator", "t", [cap]⟩)) := by
  obtain ⟨hh, hj⟩ := Bool.or_eq_false_iff.mp hx
  have hadmit : authorizeHttpEndpoint (withToken m path)
      (bearerContext ⟨"operator", "t", [cap]⟩) = true := by
    unfold authorizeHttpEndpoint
    rw [hh, hj]
    simp only [Bool.false_eq_true, if_false]
    have hnorm : requiredCapability (withToken m path).method
        (normalizedV1Path (withToken m path).path) = some cap := hr
    simp [hnorm, bearerContext]
  have hfound : (storedContext (oneToken cap) (withToken m path)).or
      (configuredContext (oneToken cap) (withToken m path) none) =
        some (bearerContext ⟨"operator", "t", [cap]⟩) := rfl
  change authMiddleware (oneToken cap) (withToken m path) none = _
  unfold authMiddleware
  rw [hh, hj, hfound]
  simp only [oneToken, Bool.false_eq_true, if_false, letThrough, hadmit, if_true]

/-- A handler that is tested for another's capability answers who holds that one alone. -/
theorem not_guarded (h : Handler) (cap : PermissionKind) {own : PermissionKind} (hd : dispatch m path = some h)
    (hown : h.capability = some own) (hr : requiredCapability m path = some cap)
    (hne : own ≠ cap) : ¬ Guarded m path := by
  intro hg
  have hx : isExempt (withToken m path) = false := by
    rw [Bool.eq_false_iff]
    intro he
    have hd' : dispatch (withToken m path).method (withToken m path).path = some h := hd
    rw [dispatched_exempt hd' he] at hown
    cases hown
  have hpass : pass (oneToken cap) (withToken m path) = _ :=
    oneToken_passes hx (by rw [dispatched_normalized hd, hr])
  obtain ⟨c, hc, hmem⟩ := hg.1 (oneToken cap) (withToken m path) h _ own rfl rfl
    (reached_iff.mpr ⟨hd, hpass⟩) hown
  obtain rfl := Option.some.inj hc
  exact hne (List.mem_singleton.mp hmem)

theorem confusable_not_guarded (hc : confusable m path = true) : ¬ Guarded m path := by
  simp only [confusable, Bool.or_eq_true, Bool.and_eq_true, decide_eq_true_eq] at hc
  rcases hc with ⟨rfl, rfl⟩ | ⟨rfl, rfl | hm⟩
  · exact not_guarded .rotateAdminToken .workerCredentialManage (by decide) rfl (by decide)
      (by decide)
  · exact not_guarded .deregisterWorker .workerCredentialManage (by decide) rfl (by decide)
      (by decide)
  · cases hp : pathSegments '/' path with
    | none =>
      rw [hp] at hm
      cases hm
    | some xs =>
      obtain ⟨rfl, hx⟩ := pathSegments_some hp
      rw [hp, Option.getD_some] at hm
      simp only [matches_lit, matches_param, matches_nil] at hm
      obtain ⟨_, rfl, n, _, rfl, hne, _, rfl, _, rfl, rfl⟩ := hm
      have hd : dispatch .delete (joinPath '/' ["workers".toList, n, "credentials".toList,
          "credential".toList]) = some .deleteWorkerCredential := by
        unfold dispatch
        rw [hp]
        simp [v1Routes, nest, apiRoutes, credRoutes, matchesAll, Piece.matches, hne,
          Route.handler]
      have hr : requiredCapability .delete (joinPath '/' ["workers".toList, n,
          "credentials".toList, "credential".toList]) = some .workerCredentialManage := by
        have hpre := (startsWith_joined (p := "/workers/") hx
          (by decide : Plain '/' ["workers".toList]) (by decide)).mpr ⟨n, _, rfl⟩
        have hsuf := (endsWith_joined (p := "/credential") hx
          (by decide : Plain '/' ["credential".toList]) (by decide)).mpr
            ⟨["workers".toList, n, "credentials".toList], rfl⟩
        rw [required_delete, hpre, hsuf]
        rfl
      exact not_guarded _ _ hd rfl hr (by decide)

end Guard

end FleetOrchestrator.Api
