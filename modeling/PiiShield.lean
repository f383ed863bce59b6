import PiiShield.AdaptiveSamples
import PiiShield.CardWindows
import PiiShield.CarvePieces
import PiiShield.CheckedSearch
import PiiShield.Cleaner.Audit
import PiiShield.Cleaner.OutputRuns
import PiiShield.Cleaner.ReloadSettles
import PiiShield.DocumentEnd
import PiiShield.Ebpf.Assembler
import PiiShield.Ebpf.Event
import PiiShield.EmailShape
import PiiShield.GenericKeys
import PiiShield.LineCount
import PiiShield.Operator.CustomRules
import PiiShield.Operator.KeyPatterns
import PiiShield.Operator.Offers
import PiiShield.Operator.Outage
import PiiShield.Operator.Overlay
import PiiShield.OutputEncoding
import PiiShield.Panel.AuditPages
import PiiShield.Panel.Expiry
import PiiShield.Panel.Limits
import PiiShield.Panel.Links
import PiiShield.Panel.PullCounts
import PiiShield.Panel.RuleRows
import PiiShield.Panel.Slugs
import PiiShield.Rules.Acceptance
import PiiShield.Rules.Canonicity
import PiiShield.Rules.Settings
import PiiShield.Rules.Statements
import PiiShield.SignatureFilters
import PiiShield.Stats.Delivery
import PiiShield.Stats.Exposition
import PiiShield.Webhook.LogFile
