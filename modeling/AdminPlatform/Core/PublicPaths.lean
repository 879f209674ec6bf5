import Mathlib.Data.List.Infix
import Mathlib.Data.List.DropRight
import Mathlib.Data.Nat.Notation
import Mathlib.Tactic.IntervalCases

namespace AdminPlatform.Core.PublicPaths

inductive Environment
  | local
  | dev
  | staging
  | production
  deriving DecidableEq

/-- The settings that the checks of a whole configuration read. -/
structure Settings where
  environment : Environment := .local
  debug : Bool := false
  corsAllowOrigins : List String := []
  corsAllowCredentials : Bool := true
  authEnabled : Bool := false
  authJwtSecret : String := ""
  authJwtAlgorithm : String := "HS256"
  authPublicPaths : List String := ["/healthz", "/startupz", "/readyz", "/docs", "/openapi.json",
    "/api/v1/auth/login", "/api/v1/auth/refresh", "/api/v1/auth/logout", "/api/v1/auth/captcha"]
  authRefreshTokenPepper : String := ""

def _API_ROOT_PREFIX : String := "/api/v1"

def startswith (s start : String) : Bool := start.toList.isPrefixOf s.toList

/-- `s.rstrip("/")` -/
def rstripSlash (s : String) : String := .ofList (s.toList.rdropWhile fun c ↦ decide (c = '/'))

def rejectWildcardWithCredentials (s : Settings) : Option String :=
  if s.corsAllowCredentials && s.corsAllowOrigins.contains "*" then
    some "CORS: allow_credentials=True 与 allow_origins=['*'] 不兼容, 请使用具体域名白名单"
  else none

def validateAuthSecretWhenEnabled (s : Settings) : Option String :=
  let length := s.authJwtSecret.length
  let minLen := 32
  if !s.authEnabled then none
  else if s.authJwtSecret.isEmpty then
    some "auth_jwt_secret 不能为空；auth_enabled=true 时必须提供 JWT 签名密钥"
  else if startswith s.authJwtAlgorithm "HS" && decide (length < minLen) then
    some s!"auth_jwt_secret 长度 {length} < {minLen} (HS* 算法要求至少 {minLen} bytes, RFC 7518 §3.2)"
  else none

def shadows (p : String) : Bool := startswith (_API_ROOT_PREFIX ++ "/") (rstripSlash p ++ "/")

def shadowing (paths : List String) : List String := paths.filter shadows

/-- What the gate finds; `repr` is the `repr` of a list. -/
def violations (repr : List String → String) (s : Settings) : List String :=
  let listed := repr (shadowing s.authPublicPaths)
  (if s.authEnabled then [] else ["auth_enabled 必须为 True（生产不允许关闭鉴权）"]) ++
  (if s.debug then ["debug 必须为 False（生产不允许暴露调试细节/堆栈）"] else []) ++
  (if s.authRefreshTokenPepper.isEmpty then
    ["auth_refresh_token_pepper 不能为空（refresh token 签发/校验依赖它）"] else []) ++
  if (shadowing s.authPublicPaths).isEmpty then []
  else [s!"auth_public_paths 含命名空间宽前缀 {listed}，会让 AuthMiddleware 对 " ++
    s!"{_API_ROOT_PREFIX} 全量免鉴权放行；只列具体公开端点（如 {_API_ROOT_PREFIX}/auth/login）"]

def enforceProductionSafety (repr : List String → String) (s : Settings) : Option String :=
  if s.environment ≠ .production then none
  else if (violations repr s).isEmpty then none
  else some ("environment=production 安全门禁未通过: " ++ "; ".intercalate (violations repr s))

def construct (repr : List String → String) (s : Settings) : Except String Settings :=
  match (rejectWildcardWithCredentials s).or
      ((validateAuthSecretWhenEnabled s).or (enforceProductionSafety repr s)) with
  | some e => .error e
  | none => .ok s

def isPublicPath (path : String) (publicPaths : List String) : Bool :=
  publicPaths.any fun p ↦ path == p || startswith path (p ++ "/") || startswith path (p ++ "?")

variable {repr : List String → String} {s : Settings} {e path : String} {r l : List Char}

def Specific (e : String) : Prop :=
  ∃ rest, e.toList = "/api/v1/".toList ++ rest ∧ ∃ c ∈ rest, c ≠ '/'

def Ancestor (e : String) : Prop :=
  ∃ base ∈ ["", "/api", "/api/v1"], ∃ n, e.toList = base.toList ++ List.replicate n '/'

@[simp] theorem startswith_iff {s start : String} : startswith s start = true ↔ start.toList <+: s.toList :=
  List.isPrefixOf_iff_prefix

theorem isPublicPath_iff {paths : List String} : isPublicPath path paths = true ↔
    ∃ e ∈ paths, path = e ∨ startswith path (e ++ "/") = true ∨ startswith path (e ++ "?") = true := by
  simp only [isPublicPath, List.any_eq_true, Bool.or_eq_true, beq_iff_eq, or_assoc]

def root : List Char := ['/', 'a', 'p', 'i', '/', 'v', '1', '/']

theorem toList_root : "/api/v1/".toList = root := by decide

/-- What ends at a slash of the root is one of its ancestors. -/
theorem ancestor_of_slash (h : r ++ ['/'] <+: root) : ∃ base ∈ ["", "/api", "/api/v1"], r = base.toList := by
  have hlen : r.length < 8 := by
    have hle := h.length_le
    rw [List.length_append] at hle
    exact hle
  have htake : r = root.take r.length :=
    List.prefix_iff_eq_take.1 ((List.prefix_append r ['/']).trans h)
  generalize r.length = k at hlen htake
  subst htake
  interval_cases k
  case «0» => exact ⟨"", by decide, by decide⟩
  case «4» => exact ⟨"/api", by decide, by decide⟩
  case «7» => exact ⟨"/api/v1", by decide, by decide⟩
  all_goals exact absurd h (by decide)

theorem toList_rstripSlash (e : String) :
    ∃ n, e.toList = (rstripSlash e).toList ++ List.replicate n '/' := by
  have hback : e.toList = (rstripSlash e).toList ++ e.toList.rtakeWhile fun c ↦ decide (c = '/') := by
    rw [rstripSlash, String.toList_ofList, List.rdropWhile_append_rtakeWhile]
  refine ⟨(e.toList.rtakeWhile fun c ↦ decide (c = '/')).length, ?_⟩
  have hslash : ∀ c ∈ e.toList.rtakeWhile fun c ↦ decide (c = '/'), c = '/' := by
    intro c hc
    simpa using List.mem_rtakeWhile_imp hc
  rwa [← List.eq_replicate_of_mem hslash]

theorem rdropWhile_slashes (l : List Char) (n : ℕ) :
    (l ++ List.replicate n '/').rdropWhile (fun c ↦ decide (c = '/')) =
      l.rdropWhile fun c ↦ decide (c = '/') := by
  induction n with
  | zero => rw [List.replicate_zero, List.append_nil]
  | succ n ih => rw [List.replicate_succ', ← List.append_assoc, List.rdropWhile_concat_pos _ _ _ rfl, ih]

/-- The gate finds the root of the API and the paths above it, however they are spelled. -/
theorem shadows_iff : shadows e = true ↔ Ancestor e := by
  have hroot : (_API_ROOT_PREFIX ++ "/").toList = root := by decide
  rw [shadows, startswith_iff, hroot, String.toList_append]
  constructor
  · intro h
    obtain ⟨base, hb, hr⟩ := ancestor_of_slash h
    obtain ⟨n, hn⟩ := toList_rstripSlash e
    exact ⟨base, hb, n, hr ▸ hn⟩
  · rintro ⟨base, hb, n, he⟩
    rw [rstripSlash, String.toList_ofList, he, rdropWhile_slashes]
    simp only [List.mem_cons, List.not_mem_nil, or_false] at hb
    rcases hb with rfl | rfl | rfl <;> decide

theorem shadowing_eq_nil {paths : List String} : shadowing paths = [] ↔ ∀ e ∈ paths, ¬ Ancestor e := by
  simp only [shadowing, List.filter_eq_nil_iff, shadows_iff]

/-- What lies below the root is no ancestor of it. -/
theorem Specific.not_ancestor (h : Specific e) : ¬ Ancestor e := by
  rintro ⟨base, hb, n, hn⟩
  obtain ⟨rest, he, c, hc, hne⟩ := h
  -- an ancestor has at most five characters besides its slashes, and `e` one more
  have hrest : 0 < rest.countP fun c ↦ decide (c ≠ '/') :=
    List.countP_pos_iff.2 ⟨c, hc, decide_eq_true hne⟩
  have hroot : root.countP (fun c ↦ decide (c ≠ '/')) = 5 := by decide
  have hslash : (List.replicate n '/').countP (fun c ↦ decide (c ≠ '/')) = 0 := by
    rw [List.countP_replicate]
    rfl
  have hbase : base.toList.countP (fun c ↦ decide (c ≠ '/')) ≤ 5 := by
    simp only [List.mem_cons, List.not_mem_nil, or_false] at hb
    rcases hb with rfl | rfl | rfl <;> decide
  have hcount := congrArg (List.countP fun c ↦ decide (c ≠ '/')) (he.symm.trans hn)
  rw [toList_root, List.countP_append, List.countP_append] at hcount
  omega

theorem specific_of_root (h : root <+: e.toList) (he : ¬ Ancestor e) : Specific e := by
  obtain ⟨rest, hrest⟩ := h
  refine ⟨rest, hrest.symm.trans (congrArg (· ++ rest) toList_root.symm), ?_⟩
  by_contra hall
  simp only [not_exists, not_and, not_not] at hall
  refine he ⟨"/api/v1", by decide, rest.length + 1, ?_⟩
  rw [← hrest, List.eq_replicate_of_mem hall, List.length_replicate, List.replicate_succ]
  rfl

/-- An entry that is no ancestor matches below the root only if it lies below it. -/
theorem specific_of_match (he : ¬ Ancestor e) (hp : root <+: path.toList)
    (h : path = e ∨ startswith path (e ++ "/") = true ∨ startswith path (e ++ "?") = true) : Specific e := by
  have hfront : ∀ {c : Char}, (root <+: e.toList → False) → e.toList ++ [c] <+: path.toList →
      e.toList ++ [c] <+: root := by
    intro c hroot hc
    refine List.prefix_of_prefix_length_le hc hp ?_
    have hshort : e.toList.length < root.length := by
      by_contra hlong
      exact hroot (List.prefix_of_prefix_length_le hp ((List.prefix_append _ _).trans hc)
        (Nat.le_of_not_lt hlong))
    rw [List.length_append]
    exact hshort
  by_cases hroot : root <+: e.toList
  · exact specific_of_root hroot he
  · rcases h with rfl | h | h
    · exact absurd hp hroot
    · rw [startswith_iff, String.toList_append] at h
      obtain ⟨base, hb, hbase⟩ := ancestor_of_slash (hfront hroot h)
      exact absurd ⟨base, hb, 0, hbase.trans (List.append_nil _).symm⟩ he
    · rw [startswith_iff, String.toList_append] at h
      have hmem : '?' ∈ root := (hfront hroot h).subset (List.mem_append_right _ List.mem_cons_self)
      exact absurd hmem (by decide)

theorem shadowing_of_construct (h : construct repr s = .ok s) (hs : s.environment = .production) :
    shadowing s.authPublicPaths = [] := by
  unfold construct at h
  split at h
  · cases h
  · next hnone =>
    have hgate : enforceProductionSafety repr s = none :=
      (Option.or_eq_none_iff.1 (Option.or_eq_none_iff.1 hnone).2).2
    rw [enforceProductionSafety, if_neg (not_not.2 hs)] at hgate
    split at hgate
    · next hempty =>
      have hlast := (List.append_eq_nil_iff.1 (List.isEmpty_iff.1 hempty)).2
      split at hlast
      · next hshadow => exact List.isEmpty_iff.1 hshadow
      · cases hlast
    · cases hgate

/-- Paths that shadow nothing are as good to the gate as none. -/
theorem construct_iff_of_shadowing (h : shadowing s.authPublicPaths = []) : construct repr s = .ok s ↔
    construct repr { s with authPublicPaths := [] } = .ok { s with authPublicPaths := [] } := by
  have hviolations : violations repr s = violations repr { s with authPublicPaths := [] } := by
    simp only [violations, h]
    rfl
  have hgate : enforceProductionSafety repr s =
      enforceProductionSafety repr { s with authPublicPaths := [] } := by
    simp only [enforceProductionSafety, hviolations]
  have hsecret : validateAuthSecretWhenEnabled s =
      validateAuthSecretWhenEnabled { s with authPublicPaths := [] } := rfl
  have hcors : rejectWildcardWithCredentials s =
      rejectWildcardWithCredentials { s with authPublicPaths := [] } := rfl
  unfold construct
  rw [hgate, hsecret, hcors]
  split <;> simp

/-- What an accepted list makes public below the root of the API lies below one of its entries, which
lies below the root itself, and a list without ancestors of the root is not rejected for its paths. -/
theorem public_of_construct (repr : List String → String) (s : Settings) :
    (construct repr s = .ok s → s.environment = .production →
      (∀ path, startswith path "/api/v1/" = true → isPublicPath path s.authPublicPaths = true →
        ∃ e ∈ s.authPublicPaths, Specific e ∧
          (path = e ∨ startswith path (e ++ "/") = true ∨ startswith path (e ++ "?") = true)) ∧
      isPublicPath "/api/v1/" s.authPublicPaths = false) ∧
    ((∀ e ∈ s.authPublicPaths, Specific e ∨ ¬ Ancestor e) → (construct repr s = .ok s ↔
      construct repr { s with authPublicPaths := [] } = .ok { s with authPublicPaths := [] })) := by
  refine ⟨fun h hs ↦ ?_, fun h ↦ construct_iff_of_shadowing (shadowing_eq_nil.2 fun e he ↦ ?_)⟩
  · have hnone := shadowing_eq_nil.1 (shadowing_of_construct h hs)
    have hpublic : ∀ path, startswith path "/api/v1/" = true → isPublicPath path s.authPublicPaths = true →
        ∃ e ∈ s.authPublicPaths, Specific e ∧
          (path = e ∨ startswith path (e ++ "/") = true ∨ startswith path (e ++ "?") = true) := by
      intro path hp hpub
      rw [startswith_iff, toList_root] at hp
      obtain ⟨e, he, hmatch⟩ := isPublicPath_iff.1 hpub
      exact ⟨e, he, specific_of_match (hnone e he) hp hmatch, hmatch⟩
    refine ⟨hpublic, Bool.eq_false_iff.2 fun hpub ↦ ?_⟩
    obtain ⟨e, -, ⟨rest, hrest, c, hc, -⟩, hmatch⟩ :=
      hpublic _ (startswith_iff.2 (List.prefix_refl _)) hpub
    -- such an entry is longer than the path itself
    have hlong : root.length < e.toList.length := by
      rw [hrest, toList_root, List.length_append]
      exact Nat.lt_add_of_pos_right (List.length_pos_of_mem hc)
    have hshort : e.toList.length ≤ root.length := by
      rw [← toList_root]
      rcases hmatch with rfl | h | h
      · exact Nat.le_refl _
      · rw [startswith_iff, String.toList_append] at h
        exact ((List.prefix_append _ _).trans h).length_le
      · rw [startswith_iff, String.toList_append] at h
        exact ((List.prefix_append _ _).trans h).length_le
    omega
  · exact (h e he).elim Specific.not_ancestor id

def productionSettings : Settings where
  environment := .production
  authEnabled := true
  authJwtSecret := "0123456789abcdef0123456789abcdef"
  authPublicPaths := ["/healthz", "/api/v1/auth/login"]
  authRefreshTokenPepper := "pepper"

theorem public_of_productionSettings :
    isPublicPath "/api/v1/auth/login/" productionSettings.authPublicPaths = true ∧
      isPublicPath "/api/v1/" productionSettings.authPublicPaths = false := by
  have hok : construct toString productionSettings = .ok productionSettings := rfl
  exact ⟨by decide, ((public_of_construct toString productionSettings).1 hok rfl).2⟩

end AdminPlatform.Core.PublicPaths
