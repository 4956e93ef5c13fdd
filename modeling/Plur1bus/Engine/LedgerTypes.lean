import Plur1bus.Engine.Ledger

/-!
The record types of the ledgers, one for each kind of line, with the nested
records they share. A field is given by its kind and its name in the object.
-/

namespace Plur1bus.Engine

def field (kind : Type) [known : KnownField kind] (wire : String) : FieldSpec := ⟨wire, kind, known⟩

/-! ### Nested records -/

def originFields : Schema where
  fields := [
    field JsString "kind",
    field JsString "role",
    field (List JsString) "sourceTurnIds",
    field (List JsString) "sourceMemoryIds",
    field (List JsString) "sourceToolCallIds",
    field JsString "capturedBy",
    field JsString "trustLevel",
    field LedgerNumber "confidence",
    field JsString "scope",
    field JsString "workspaceKey",
    field JsString "agentId",
    field JsString "sessionId",
    field JsString "ownerId"]
  nodup := by decide +kernel

abbrev OriginFields := Record originFields

def visibilityFields : Schema where
  fields := [
    field JsString "scope",
    field Bool "recallable",
    field Bool "promptInjectable",
    field Bool "dreamEligible"]
  nodup := by decide +kernel

abbrev VisibilityFields := Record visibilityFields

def attributionFields : Schema where
  fields := [
    field (List JsString) "repliesToTurnIds",
    field (List JsString) "usedMemoryIds",
    field (List JsString) "usedBehaviorCardIds",
    field (List JsString) "usedDreamIds",
    field (List JsString) "usedToolIds"]
  nodup := by decide +kernel

abbrev AttributionFields := Record attributionFields

def qualityFields : Schema where
  fields := [
    field LedgerNumber "confidence",
    field Bool "userConfirmed",
    field Bool "contradicted",
    field Bool "stale",
    field Bool "promoted",
    field Bool "demoted",
    field Bool "pruned",
    field Bool "promptInjectionSuspected"]
  nodup := by decide +kernel

abbrev QualityFields := Record qualityFields

/-! ### Lines -/

def turnJournalLine : Schema where
  fields := [
    field JsString "id",
    field JsString "workspaceKey",
    field JsString "agentId",
    field JsString "sessionId",
    field LedgerNumber "turnIndex",
    field JsString "role",
    field JsString "content",
    field (List JsString) "categories",
    field OriginFields "origin",
    field VisibilityFields "visibility",
    field AttributionFields "attribution",
    field QualityFields "quality",
    field JsString "emotionalValence",
    field LedgerNumber "emotionalIntensity",
    field JsString "emotionalDominant",
    field JsString "createdAt",
    field (List LedgerNumber) "embedding",
    field LedgerNumber "embeddingDims",
    field JsString "embeddingStore",
    field JsString "updatedAt"]
  nodup := by decide +kernel

abbrev TurnJournalLine := Record turnJournalLine

def memoryCandidateLine : Schema where
  fields := [
    field JsString "id",
    field JsString "workspaceKey",
    field JsString "agentId",
    field JsString "statement",
    field JsString "normalizedStatement",
    field JsString "category",
    field OriginFields "origin",
    field (List JsString) "sourceTurnIds",
    field JsString "status",
    field LedgerNumber "confidence",
    field LedgerNumber "salience",
    field LedgerNumber "recency",
    field JsString "embeddingStatus",
    field JsString "createdAt",
    field JsString "emotionalValence",
    field LedgerNumber "emotionalIntensity",
    field JsString "emotionalDominant",
    field (List LedgerNumber) "embedding",
    field LedgerNumber "embeddingDims",
    field JsString "embeddingStore",
    field JsString "updatedAt"]
  nodup := by decide +kernel

abbrev MemoryCandidateLine := Record memoryCandidateLine

def candidateIndexLine : Schema where
  fields := [
    field JsString "id",
    field JsString "workspaceKey",
    field JsString "agentId",
    field JsString "statement",
    field JsString "category",
    field JsString "status",
    field Bool "stale",
    field Bool "hardDeleted",
    field LedgerNumber "confidence",
    field LedgerNumber "salience",
    field LedgerNumber "recency",
    field JsString "createdAt",
    field JsString "updatedAt",
    field JsString "startTime",
    field JsString "epistemicStatus",
    field VisibilityFields "visibility",
    field JsString "ownerId",
    field JsString "ownerUserId",
    field (List JsString) "sourceTurnIds",
    field LedgerNumber "embeddingDims",
    field JsString "emotionalDominant",
    field OriginFields "origin"]
  nodup := by decide +kernel

abbrev CandidateIndexLine := Record candidateIndexLine

def reactionLedgerLine : Schema where
  fields := [
    field JsString "id",
    field JsString "workspaceKey",
    field JsString "agentId",
    field JsString "sessionId",
    field JsString "turnId",
    field JsString "targetType",
    field (List JsString) "targetIds",
    field LedgerNumber "polarity",
    field LedgerNumber "intensity",
    field LedgerNumber "confidence",
    field JsString "explicitness",
    field JsString "evidence",
    field JsString "extractedAt"]
  nodup := by decide +kernel

abbrev ReactionLedgerLine := Record reactionLedgerLine

def behaviorCardLine : Schema where
  fields := [
    field JsString "id",
    field JsString "workspaceKey",
    field JsString "agentId",
    field JsString "category",
    field JsString "statement",
    field JsString "status",
    field LedgerNumber "confidence",
    field LedgerNumber "salience",
    field (List JsString) "sourceSignals",
    field JsString "lastConfirmedAt",
    field JsString "lastContradictedAt",
    field JsString "embeddingStatus",
    field JsString "createdAt",
    field (List LedgerNumber) "embedding",
    field LedgerNumber "embeddingDims",
    field JsString "embeddingStore",
    field JsString "updatedAt"]
  nodup := by decide +kernel

abbrev BehaviorCardLine := Record behaviorCardLine

def retrievalLedgerLine : Schema where
  fields := [
    field JsString "id",
    field (Option JsString) "agentId",
    field (Option JsString) "workspaceKey",
    field (Option JsString) "queryHash",
    field LedgerNumber "resultsCount",
    field (List (Option JsString)) "selectedIds",
    field LedgerNumber "timestamp"]
  nodup := by decide +kernel

abbrev RetrievalLedgerLine := Record retrievalLedgerLine

def reconsolidationEventLine : Schema where
  fields := [
    field JsString "id",
    field JsString "idempotencyKey",
    field JsString "oldMemoryId",
    field JsString "newMemoryId",
    field JsString "action",
    field JsString "updateSource",
    field JsString "updateEvidence",
    field LedgerNumber "confidence",
    field LedgerNumber "semanticDrift",
    field LedgerNumber "createdAt",
    field JsString "previousEpistemicStatus",
    field JsString "newEpistemicStatus"]
  nodup := by decide +kernel

abbrev ReconsolidationEventLine := Record reconsolidationEventLine

def conflictLogLine : Schema where
  fields := [
    field JsString "timestamp",
    field JsString "topic",
    field (Option JsString) "newMemoryId",
    field JsString "existingMemoryId",
    field JsString "newText",
    field JsString "existingText",
    field Bool "pending",
    field LedgerNumber "schemaVersion",
    field JsString "newAgentId",
    field JsString "existingAgentId",
    field LedgerNumber "score",
    field JsString "category",
    field JsString "mergeDecision"]
  nodup := by decide +kernel

abbrev ConflictLogLine := Record conflictLogLine

def conflictResolvedLine : Schema where
  fields := [
    field ConflictLogLine "original",
    field JsString "resolution",
    field LedgerNumber "confidence",
    field JsString "reason",
    field JsString "recommendation",
    field JsString "resolvedAt",
    field Bool "dryRun"]
  nodup := by decide +kernel

abbrev ConflictResolvedLine := Record conflictResolvedLine

def destructiveOpLine : Schema where
  fields := [
    field JsString "operation",
    field (Option JsString) "agentId",
    field JsString "id",
    field TimestampValue "timestamp",
    field JsString "memoryId",
    field JsString "previousEpistemicStatus",
    field JsString "newEpistemicStatus",
    field LedgerNumber "previousValidUntil",
    field LedgerNumber "newValidUntil",
    field JsString "actor",
    field JsString "reason",
    field JsString "evidence",
    field (Option JsString) "userPrincipal",
    field JsString "event",
    field JsString "source",
    field JsString "via",
    field JsString "archivePath",
    field JsString "tombstoneId",
    field JsString "canonicalOriginId",
    field JsString "result",
    field JsString "errorClass"]
  nodup := by decide +kernel

abbrev DestructiveOpLine := Record destructiveOpLine

def replyOutcomeLine : Schema where
  fields := [
    field JsString "id",
    field LedgerNumber "schema",
    field LedgerNumber "timestamp",
    field JsString "agentId",
    field JsString "sessionKey",
    field (Option JsString) "workspaceKey",
    field JsString "source",
    field JsString "userPrompt",
    field JsString "replyText",
    field JsString "assistantText",
    field (List JsString) "memoryIds",
    field JsString "outcome",
    field JsString "feedback",
    field LedgerNumber "confidence",
    field (List JsString) "reasons"]
  nodup := by decide +kernel

abbrev ReplyOutcomeLine := Record replyOutcomeLine

end Plur1bus.Engine
