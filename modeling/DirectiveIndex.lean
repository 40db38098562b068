import DirectiveIndex.Main
import DirectiveIndex.Proofs.Scan
import DirectiveIndex.Proofs.LiveKeywords
import DirectiveIndex.Proofs.LookAlikes
import DirectiveIndex.Proofs.Concatenation
import DirectiveIndex.Proofs.Truncation
import DirectiveIndex.Proofs.Comments
import DirectiveIndex.Proofs.Printing
import DirectiveIndex.Proofs.Progress
import DirectiveIndex.Proofs.DisplayTexts
import DirectiveIndex.Proofs.Walk
import DirectiveIndex.Proofs.Indexes
import DirectiveIndex.Proofs.Targets
import DirectiveIndex.Proofs.Histories
import DirectiveIndex.Proofs.Visits
import DirectiveIndex.Proofs.Hexadecimals
import DirectiveIndex.Proofs.JsonGrammar
import DirectiveIndex.Proofs.JsonReading
import DirectiveIndex.Proofs.JsonTexts
import DirectiveIndex.Proofs.YamlScalars
import DirectiveIndex.Proofs.YamlTexts
import DirectiveIndex.Proofs.Occurrences
import DirectiveIndex.Proofs.Regions
import DirectiveIndex.Proofs.Values
import DirectiveIndex.Proofs.LineEndings
import DirectiveIndex.Proofs.SourceFiles
import DirectiveIndex.Proofs.ArgumentTexts
import DirectiveIndex.Proofs.OpenTrees
import DirectiveIndex.Proofs.Writing
import DirectiveIndex.Proofs.Runs
import DirectiveIndex.Proofs.LinkCycles
import DirectiveIndex.Proofs.Tokens
import DirectiveIndex.Proofs.PhysicalFiles
import DirectiveIndex.Proofs.CharacterForms
import DirectiveIndex.Proofs.Decoding
import DirectiveIndex.Proofs.Outlines
import DirectiveIndex.Proofs.Continuations
import DirectiveIndex.Proofs.DisplayedPlaces
import DirectiveIndex.Proofs.Aggregates
import DirectiveIndex.Proofs.Requests
