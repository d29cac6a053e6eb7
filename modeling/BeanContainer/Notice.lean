import BeanContainer.Definition.Basic
import BeanContainer.Error

/-!
What a container writes to its log: each notice with its severity and text.
-/

namespace BeanContainer

/-- How urgent a notice is. -/
inductive Severity where
  | error
  | warn
  | info
  | debug
deriving DecidableEq, Repr

namespace Severity

/-- The severity's name in the log. -/
def label : Severity → String
  | error => "ERROR"
  | warn => "WARN"
  | info => "INFO"
  | debug => "DEBUG"

/-- The place of a severity, the most urgent first. -/
def rank : Severity → Nat
  | error => 0
  | warn => 1
  | info => 2
  | debug => 3

end Severity

/-- A line of the log. -/
inductive Notice where
  -- aliases
  | selfAliasRemoved (altName : String)
  | aliasOverridden (altName old new : String)
  | aliasRegistered (altName name : String)
  | aliasNamesDefinition (altName name : String)
  -- definitions
  | definitionMerged (bean scope : String)
  | definitionRegistered (name : String)
  | definitionRepeated (name : String)
  | definitionRoleRaised (name : String) (old new : Role)
  | definitionOverridden (name : String)
  | definitionRemoved (name : String)
  | resetFailed (name : String) (error : BeanError)
  -- configuration
  | logStarted
  | factoryCreated
  | configurationCopied
  | parentSet
  | scopeReplaced (name written : String)
  | scopeRegistered (name : String)
  | dependencyRecorded (dependent bean : String)
  | resolvableRegistered (type : TypeInfo)
  -- making beans
  | singletonRegistered (name : String)
  | creating (bean scope : String)
  | singletonCached (bean : String)
  | surplusInScope (scope bean : String)
  | surplusFailed (bean : String) (failure : Failure)
  -- lifecycle
  | configurationFrozen
  | cacheCleared
  | preInstantiationStarted
  | preInstantiationFailed (bean : String) (error : BeanError)
  | announcing (bean : String)
  | preInstantiationFinished
  | destructionStarted
  | destructionFinished
  | destructionIncomplete
  | dependentsFirst (bean : String) (dependents : List String)
  | singletonFailed (bean : String) (failure : Failure)
  | hookFailed (bean : String) (failure : Failure)
  | callingDestroy (bean : String)
  | scopedFailed (scope bean : String) (failure : Failure)
  | scopeCleared (scope : String)

namespace Notice

/-- How urgent a notice is. -/
def severity : Notice → Severity
  | preInstantiationFailed .. => .error
  | aliasNamesDefinition .. | definitionRoleRaised .. | resetFailed .. | surplusFailed ..
  | destructionIncomplete | singletonFailed .. | hookFailed .. | scopedFailed .. => .warn
  | definitionRegistered .. | definitionOverridden .. | definitionRemoved .. | logStarted | parentSet
  | scopeRegistered .. | singletonRegistered .. | configurationFrozen | preInstantiationStarted
  | preInstantiationFinished | destructionStarted | destructionFinished => .info
  | _ => .debug

/-- The line of a notice. -/
def text : Notice → String
  | selfAliasRemoved altName => "别名 '" ++ altName ++ "' 指向自身，已移除"
  | aliasOverridden altName old new =>
    "覆盖别名 '" ++ altName ++ "': '" ++ old ++ "' -> '" ++ new ++ "'"
  | aliasRegistered altName name => "注册别名 '" ++ altName ++ "' -> '" ++ name ++ "'"
  | aliasNamesDefinition altName name =>
    "解析后的别名 '" ++ altName ++ "' -> '" ++ name ++ "' 与 Bean 定义名称相同"
  | definitionMerged bean scope => "合并 Bean 定义 '" ++ bean ++ "' (scope='" ++ scope ++ "')"
  | definitionRegistered name => "注册 Bean 定义 '" ++ name ++ "'"
  | definitionRepeated name => "以相同的定义覆盖 Bean '" ++ name ++ "'"
  | definitionRoleRaised name old new =>
    "覆盖 Bean 定义 '" ++ name ++ "': 角色由 " ++ old.label ++ " 变为 " ++ new.label
  | definitionOverridden name => "覆盖 Bean 定义 '" ++ name ++ "'"
  | definitionRemoved name => "移除 Bean 定义 '" ++ name ++ "'"
  | resetFailed name error =>
    "重置 Bean 定义 '" ++ name ++ "' 时销毁单例失败: " ++ error.message
  | logStarted => "日志系统初始化完成"
  | factoryCreated => "创建 Bean 工厂"
  | configurationCopied => "复制工厂配置"
  | parentSet => "设置父工厂"
  | scopeReplaced name written => "替换作用域 '" ++ name ++ "' 的实现 " ++ written
  | scopeRegistered name => "注册作用域 '" ++ name ++ "'"
  | dependencyRecorded dependent bean =>
    "记录依赖关系: '" ++ dependent ++ "' 依赖于 '" ++ bean ++ "'"
  | resolvableRegistered type => "注册可解析依赖 " ++ type.name
  | singletonRegistered name => "手动注册单例 '" ++ name ++ "'"
  | creating bean scope => "创建 Bean '" ++ bean ++ "' (scope='" ++ scope ++ "')"
  | singletonCached bean => "缓存单例 '" ++ bean ++ "'"
  | surplusInScope scope bean =>
    "作用域 '" ++ scope ++ "' 已保存其他线程创建的 '" ++ bean ++ "'，销毁本线程的实例"
  | surplusFailed bean failure =>
    "作用域 Bean '" ++ bean ++ "' 的多余实例销毁失败: " ++ failure.message
  | configurationFrozen => "冻结 Bean 工厂配置"
  | cacheCleared => "清空合并定义缓存"
  | preInstantiationStarted => "开始预实例化单例"
  | preInstantiationFailed bean error => "预实例化单例 '" ++ bean ++ "' 失败: " ++ error.message
  | announcing bean => "回调 '" ++ bean ++ "' 的单例预实例化完成通知"
  | preInstantiationFinished => "单例预实例化完成"
  | destructionStarted => "开始销毁单例"
  | destructionFinished => "单例销毁完成"
  | destructionIncomplete => "单例销毁完成，部分 Bean 销毁失败"
  | dependentsFirst bean dependents =>
    "销毁 '" ++ bean ++ "' 之前先销毁依赖它的 Bean: " ++ Text.quotedNames dependents
  | singletonFailed bean failure => "销毁单例 '" ++ bean ++ "' 失败: " ++ failure.message
  | hookFailed bean failure => "Bean '" ++ bean ++ "' 的销毁前回调失败: " ++ failure.message
  | callingDestroy bean => "调用 Bean '" ++ bean ++ "' 的销毁回调"
  | scopedFailed scope bean failure =>
    "作用域 '" ++ scope ++ "' 中的 Bean '" ++ bean ++ "' 销毁失败: " ++ failure.message
  | scopeCleared scope => "作用域 '" ++ scope ++ "' 已清理"

end Notice

end BeanContainer
