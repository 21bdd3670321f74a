import HyChat.Lib.Js

/-!
# The tools a browser approves by itself

The preference is one item of the local storage: the JSON text of an array of tool names. An item is
carried by what `JSON.parse` makes of it. Only two tools can be approved without asking, whatever
the item holds. Other tabs write the same item, and so can anybody at the console.

Lower case is that of ASCII: no other letter has a letter of the two names for its lower case.
-/

set_option autoImplicit false

namespace HyChat

open Lib

namespace Frontend

/-- The item under `hy-chat:auto-approve-tools` -/
inductive StoredItem
  /-- There is none, or it is the empty text. -/
  | missing
  /-- `getItem` or `JSON.parse` throws. -/
  | unreadable
  | parsed (value : Json)

/-- `AUTO_APPROVAL_SUPPORTED_TOOLS` -/
def autoApprovalSupportedTools : List String := ["web_search", "generate_image"]

def normalizeToolName (toolName : String) : String :=
  String.ofList ((Js.trim toolName.toList).map Char.toLower)

def stringItem : Json → Option String
  | .str s => some s
  | _ => none

/-- A `Set` is the list of its elements in the order of their insertion. -/
def readAutoApprovedToolSet : StoredItem → List String
  | .parsed (.arr items) =>
      (((items.filterMap stringItem).map normalizeToolName).filter fun toolName =>
        autoApprovalSupportedTools.contains toolName).eraseDups
  | _ => []

/-- An empty name is falsy; the two names are not empty. -/
def isToolAutoApprovalSupported (toolName : String) : Bool :=
  autoApprovalSupportedTools.contains (normalizeToolName toolName)

def isToolAutoApproved (item : StoredItem) (toolName : String) : Bool :=
  isToolAutoApprovalSupported toolName &&
    (readAutoApprovedToolSet item).contains (normalizeToolName toolName)

/-- The set that `setToolAutoApproved` writes -/
def changedToolSet (approvedTools : List String) (toolName : String) (enabled : Bool) :
    List String :=
  if enabled then
    if approvedTools.contains toolName then approvedTools else approvedTools ++ [toolName]
  else approvedTools.filter fun other => other ≠ toolName

/-- `written` is false when `setItem` throws. -/
def setToolAutoApproved (item : StoredItem) (toolName : String) (enabled written : Bool) :
    StoredItem :=
  if isToolAutoApprovalSupported toolName && written then
    .parsed (.arr ((changedToolSet (readAutoApprovedToolSet item) (normalizeToolName toolName)
      enabled).map .str))
  else item

/-! ## Reading what was written -/

theorem mem_readAutoApprovedToolSet {item : StoredItem} {toolName : String}
    (h : toolName ∈ readAutoApprovedToolSet item) :
    toolName ∈ autoApprovalSupportedTools := by
  cases item with
  | missing => simp [readAutoApprovedToolSet] at h
  | unreadable => simp [readAutoApprovedToolSet] at h
  | parsed value =>
    cases value with
    | arr items =>
      rw [readAutoApprovedToolSet, List.mem_eraseDups] at h
      simpa using (List.mem_filter.mp h).2
    | _ => simp [readAutoApprovedToolSet] at h

/-- The names of the two tools are their own normal forms. -/
theorem normalizeToolName_of_supported {toolName : String}
    (h : toolName ∈ autoApprovalSupportedTools) : normalizeToolName toolName = toolName := by
  simp only [autoApprovalSupportedTools, List.mem_cons, List.not_mem_nil, or_false] at h
  rcases h with rfl | rfl
  · rfl
  · rfl

theorem mem_changedToolSet {approvedTools : List String} {toolName : String} {enabled : Bool}
    {other : String} : other ∈ changedToolSet approvedTools toolName enabled ↔
      if other = toolName then enabled = true else other ∈ approvedTools := by
  unfold changedToolSet
  cases enabled with
  | true =>
    by_cases he : other = toolName
    · subst he
      by_cases hm : other ∈ approvedTools
      · simp [hm]
      · simp [hm]
    · by_cases hm : toolName ∈ approvedTools
      · simp [hm, he]
      · simp [hm, he]
  | false =>
    by_cases he : other = toolName
    · simp [he]
    · simp [he]

/-- What is written is read back as it is. -/
theorem mem_read_of_supported {toolNames : List String}
    (h : ∀ toolName ∈ toolNames, toolName ∈ autoApprovalSupportedTools) {toolName : String} :
    toolName ∈ readAutoApprovedToolSet (.parsed (.arr (toolNames.map .str))) ↔
      toolName ∈ toolNames := by
  have hstrings : (toolNames.map Json.str).filterMap stringItem = toolNames := by
    rw [List.filterMap_map]
    exact List.filterMap_some
  have hnormal : toolNames.map normalizeToolName = toolNames := by
    rw [List.map_congr_left fun name hname => normalizeToolName_of_supported (h name hname),
      List.map_id']
  rw [readAutoApprovedToolSet, List.mem_eraseDups, hstrings, hnormal, List.mem_filter]
  constructor
  · exact fun hm => hm.1
  · intro hm
    exact ⟨hm, by simpa using h toolName hm⟩

/-- **One change.** A supported tool whose name is the changed one has the new setting, and every
    other tool the one it had. -/
theorem isToolAutoApproved_set (item : StoredItem) (changed : String) (enabled : Bool)
    (toolName : String) :
    isToolAutoApproved (setToolAutoApproved item changed enabled true) toolName =
      if normalizeToolName toolName = normalizeToolName changed then
        isToolAutoApprovalSupported toolName && enabled
      else isToolAutoApproved item toolName := by
  unfold isToolAutoApproved setToolAutoApproved
  by_cases hsupported : isToolAutoApprovalSupported changed = true
  · rw [hsupported, Bool.true_and, if_pos rfl]
    have hread : ∀ other, other ∈ readAutoApprovedToolSet (.parsed (.arr
        ((changedToolSet (readAutoApprovedToolSet item) (normalizeToolName changed) enabled).map
          .str))) ↔
        other ∈ changedToolSet (readAutoApprovedToolSet item) (normalizeToolName changed)
          enabled := by
      intro other
      refine mem_read_of_supported fun name hname => ?_
      rw [mem_changedToolSet] at hname
      split at hname
      · rename_i he
        rw [he]
        exact List.contains_iff_mem.mp hsupported
      · exact mem_readAutoApprovedToolSet hname
    have hcontains := (hread (normalizeToolName toolName)).trans mem_changedToolSet
    split
    · rename_i he
      rw [if_pos he] at hcontains
      congr 1
      rw [Bool.eq_iff_iff, List.contains_iff_mem]
      exact hcontains
    · rename_i hne
      rw [if_neg hne] at hcontains
      congr 1
      rw [Bool.eq_iff_iff, List.contains_iff_mem, List.contains_iff_mem]
      exact hcontains
  · rw [if_neg (by simp [hsupported])]
    split
    · rename_i he
      have hno : isToolAutoApprovalSupported toolName = false := by
        unfold isToolAutoApprovalSupported at hsupported ⊢
        rw [he]
        exact Bool.eq_false_iff.mpr hsupported
      rw [hno]
      rfl
    · rfl

theorem setToolAutoApproved_unwritten (item : StoredItem) (changed : String) (enabled : Bool) :
    setToolAutoApproved item changed enabled false = item := by
  unfold setToolAutoApproved
  rw [Bool.and_false]
  rfl

end Frontend

end HyChat
